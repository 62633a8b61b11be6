/-
  What the driver accepts from the touch controller.

  * `decodeFrame_iff`: exactly the frames with a right CRC, no frames to follow
    and a report that is well formed;
  * `decode_encode`: such a report comes back from its frame;
  * `corrupted_rejected`: a frame that arrives with up to three flipped bits, an
    odd number of them, or flipped bits within eight neighbours, is not accepted.
-/
import Mathlib.Data.List.OfFn
import Mathlib.Tactic.IntervalCases
import MetaHipos.Rafi.Frame

namespace MetaHipos.Rafi

open LittleEndian

/-! ## The CRC -/

/-- The bits of a frame, as they are transmitted to the register. -/
def frameBits (frame : List Byte) : List Bool := frame.flatMap Crc.bits

theorem crc8Bit_eq (crc dat : Byte) :
    crc8Bit crc dat = (Crc.shift crcpoly crc (dat.getLsbD 0), dat >>> 1) := by
  have hfb : ((crc ^^^ dat) &&& 1 ≠ 0) ↔ (crc.getLsbD 0 ^^ dat.getLsbD 0) = true := by
    rw [← BitVec.getLsbD_xor, show (1 : Byte) = 1#8 from rfl,
      BitVec.and_one_eq_setWidth_ofBool_getLsbD]
    cases (crc ^^^ dat).getLsbD 0 <;> decide
  simp only [crc8Bit, Crc.shift, hfb]

theorem crc8Byte_eq (crc dat : Byte) (index : ℕ) :
    crc8Byte crc dat index =
      Crc.run crcpoly crc ((List.range (index + 1)).map dat.getLsbD) := by
  induction index generalizing crc dat with
  | zero => rw [crc8Byte, crc8Bit_eq]; rfl
  | succ index ih =>
    have hmap : (List.range (index + 1)).map (dat >>> 1).getLsbD =
        (List.range (index + 1)).map fun i => dat.getLsbD (i + 1) := by
      refine List.map_congr_left fun i _ => ?_
      rw [BitVec.getLsbD_ushiftRight, Nat.add_comm]
    rw [crc8Byte, crc8Bit_eq, ih, hmap, List.range_succ_eq_map (n := index + 1), List.map_cons,
      Crc.run_cons, List.map_map]
    rfl

/-- The CRC of the driver is the CRC of the bits. -/
theorem crc8_eq (start : Byte) (array : List Byte) :
    crc8 start array = Crc.run crcpoly start (frameBits array) := by
  induction array generalizing start with
  | nil => rfl
  | cons dat array ih =>
    rw [frameBits, List.flatMap_cons, Crc.run_append]
    exact (ih _).trans (congrArg (Crc.run crcpoly · _) (crc8Byte_eq start dat 7))

theorem crc8_append (start : Byte) (array : List Byte) :
    crc8 start (array ++ [crc8 start array]) = 0 := by
  have hbits : frameBits (array ++ [crc8 start array]) =
      frameBits array ++ Crc.bits (crc8 start array) := by simp [frameBits]
  rw [crc8_eq, hbits, Crc.run_append, ← crc8_eq]
  exact Crc.run_bits

/-- The frames that are sent pass the check. -/
theorem crc8_withCrc (fragment : List Byte) : crc8 0 (withCrc fragment) = 0 := crc8_append _ _

theorem length_frameBits (frame : List Byte) : (frameBits frame).length = 8 * frame.length := by
  induction frame with
  | nil => rfl
  | cons b frame ih =>
    rw [frameBits, List.flatMap_cons, List.length_append, Crc.length_bits, List.length_cons]
    rw [frameBits] at ih
    omega

/-! ## Reports as bytes -/

/-- The flags of touch data. -/
def tsInfo (pressed inRange valid : Bool) : Byte :=
  (if pressed then 1 else 0) ||| (if inRange then 2 else 0) ||| (if valid then 4 else 0)

/-- The flag and the number of keys. -/
def keyInfo (anyKeyTouched : Bool) (numKeys : ℕ) : Byte :=
  (if anyKeyTouched then 0x80 else 0) ||| BitVec.ofNat 8 numKeys

/-- Keys `8 * k` to `8 * k + 7`. -/
def keyByte (d : KeyArray) (k : Fin 4) : Byte :=
  (BitVec.ofBoolListLE (List.ofFn fun i : Fin 8 => d.keyTouched ⟨8 * k + i, by omega⟩)).setWidth 8

/-- The data of a report. -/
def Payload.data : Payload → List Byte
  | swVersion d => [d.major, d.minor, d.revision, 0, 0, 0, 0]
  | status d => [d.code.value, d.error.value, BitVec.ofNat 8 d.lastCmdId, 0, 0, 0, 0]
  | tsData d => [tsInfo d.pressed d.inRange d.valid, BitVec.ofNat 8 d.fingerId,
      BitVec.ofNat 8 d.x, BitVec.ofNat 8 (d.x / 256), BitVec.ofNat 8 d.y,
      BitVec.ofNat 8 (d.y / 256), BitVec.ofNat 8 d.contactCnt]
  | keyArray d => [keyInfo d.anyKeyTouched d.numKeys, keyByte d 0, keyByte d 1, keyByte d 2,
      keyByte d 3, 0, 0]

/-- The bits of the data that the driver looks at. -/
def Payload.mask : Payload → List Byte
  | swVersion _ => [0xFF, 0xFF, 0xFF, 0, 0, 0, 0]
  | status _ => [0xFF, 0xFF, 0xFF, 0, 0, 0, 0]
  | tsData _ => [0x07, 0xFF, 0xFF, 0xFF, 0xFF, 0xFF, 0xFF]
  | keyArray _ => [0x9F, 0xFF, 0xFF, 0xFF, 0xFF, 0, 0]

/-- The numbers fit into their fields. -/
def Payload.WellFormed : Payload → Prop
  | swVersion _ => True
  | status d => d.lastCmdId < 2 ^ 8
  | tsData d => d.fingerId < 2 ^ 8 ∧ d.x < 2 ^ 16 ∧ d.y < 2 ^ 16 ∧ d.contactCnt < 2 ^ 8
  | keyArray d => d.numKeys < 2 ^ 5

/-- The frame of a report. -/
def encodeFrame (p : Payload) : List Byte := withCrc (p.id :: p.data)

/-- The data shows the report, in the bits that matter. -/
def Payload.Shows (p : Payload) (data : List Byte) : Prop :=
  List.zipWith (· &&& ·) p.mask data = p.data

/-! ## Fields -/

theorem ofByte_value (code : StatusCode) (b : Byte) :
    StatusCode.ofByte b = some code ↔ b = code.value := by
  constructor
  · intro h
    have hfound := List.find?_some h
    exact (of_decide_eq_true hfound).symm
  · rintro rfl
    cases code <;> rfl

theorem ofByte_error_value (error : StatusError) (b : Byte) :
    StatusError.ofByte b = some error ↔ b = error.value := by
  constructor
  · intro h
    have hfound := List.find?_some h
    exact (of_decide_eq_true hfound).symm
  · rintro rfl
    cases error <;> rfl

theorem mask_all (b : Byte) : (0xFF : Byte) &&& b = b := by
  rw [BitVec.and_comm]
  exact BitVec.and_allOnes

theorem mask_none (b : Byte) : (0 : Byte) &&& b = 0 := BitVec.zero_and

theorem toNat_eq_iff {b : Byte} {n : ℕ} (h : n < 2 ^ 8) : b.toNat = n ↔ b = BitVec.ofNat 8 n := by
  constructor
  · rintro rfl
    simp
  · rintro rfl
    simpa using h

theorem word_eq_iff {b₀ b₁ : Byte} {n : ℕ} (h : n < 2 ^ 16) :
    b₀.toNat + b₁.toNat <<< 8 = n ↔ b₀ = BitVec.ofNat 8 n ∧ b₁ = BitVec.ofNat 8 (n / 256) := by
  have h₀ := b₀.isLt
  have h₁ := b₁.isLt
  rw [Nat.shiftLeft_eq, ← BitVec.toNat_inj, ← BitVec.toNat_inj, BitVec.toNat_ofNat,
    BitVec.toNat_ofNat]
  omega

theorem tsInfo_iff (b : Byte) (pressed inRange valid : Bool) :
    (0x07 : Byte) &&& b = tsInfo pressed inRange valid ↔
      decide (b &&& 1 ≠ 0) = pressed ∧ decide (b &&& 2 ≠ 0) = inRange ∧
        decide (b &&& 4 ≠ 0) = valid := by
  cases pressed <;> cases inRange <;> cases valid <;> revert b <;> decide

theorem keyInfo_iff (b : Byte) {numKeys : ℕ} {anyKeyTouched : Bool} (h : numKeys < 2 ^ 5) :
    (0x9F : Byte) &&& b = keyInfo anyKeyTouched numKeys ↔
      (b &&& 0x1F).toNat = numKeys ∧ decide (b &&& 0x80 ≠ 0) = anyKeyTouched := by
  have hsplit : ∀ b : Byte,
      (0x9F : Byte) &&& b = keyInfo (b &&& 0x80 ≠ 0) (b &&& 0x1F).toNat := by decide
  have hjoin : ∀ n : Fin 32, ∀ a : Bool,
      (keyInfo a n &&& 0x1F).toNat = n ∧ decide (keyInfo a n &&& 0x80 ≠ 0) = a := by decide
  have hmask : ∀ b : Byte, ((0x9F : Byte) &&& b) &&& 0x1F = b &&& 0x1F ∧
      ((0x9F : Byte) &&& b) &&& 0x80 = b &&& 0x80 := by decide
  constructor
  · intro hb
    have := hjoin ⟨numKeys, h⟩ anyKeyTouched
    rwa [← hb, (hmask b).1, (hmask b).2] at this
  · rintro ⟨rfl, rfl⟩
    exact hsplit b

theorem keyByte_iff (b : Byte) (d : KeyArray) (k : Fin 4) : b = keyByte d k ↔
    ∀ i : Fin 8, b.getLsbD i = d.keyTouched ⟨8 * k + i, by omega⟩ := by
  have hbit : ∀ i : Fin 8, (keyByte d k).getLsbD i = d.keyTouched ⟨8 * k + i, by omega⟩ := by
    intro i
    rw [keyByte, BitVec.getLsbD_setWidth, BitVec.getLsbD_ofBoolListLE, List.getD,
      List.getElem?_ofFn, dif_pos i.isLt, decide_eq_true i.isLt, Bool.true_and]
    rfl
  constructor
  · rintro rfl
    exact hbit
  · intro h
    refine BitVec.eq_of_getLsbD_eq fun i hi => ?_
    exact (h ⟨i, hi⟩).trans (hbit ⟨i, hi⟩).symm

/-- `buffer[ byte ] & ( 1 << bit )` -/
theorem bit_iff (b : Byte) (i : ℕ) (hi : i < 8) :
    decide (b &&& ((1 : Byte) <<< i) ≠ 0) = b.getLsbD i := by
  have htwo : (1 : Byte) <<< i = BitVec.twoPow 8 i := (BitVec.twoPow_eq 8 i).symm
  have hne : BitVec.twoPow 8 i ≠ 0 := by
    intro h
    have := congrArg (BitVec.getLsbD · i) h
    simp [hi] at this
  rw [htwo, BitVec.and_twoPow]
  cases b.getLsbD i with
  | false => rfl
  | true => exact decide_eq_true hne

/-! ## The decoder -/

theorem byteAt_cons_drop {data : List Byte} {k : ℕ} (h : k < data.length) :
    data.drop k = byteAt data k :: data.drop (k + 1) := by
  rw [List.drop_eq_getElem_cons h, byteAt, List.getD_eq_getElem _ _ h]

theorem eq_seven {data : List Byte} (h : 7 ≤ data.length) :
    data = byteAt data 0 :: byteAt data 1 :: byteAt data 2 :: byteAt data 3 :: byteAt data 4 ::
      byteAt data 5 :: byteAt data 6 :: data.drop 7 := by
  rw [← byteAt_cons_drop (by omega), ← byteAt_cons_drop (by omega), ← byteAt_cons_drop (by omega),
    ← byteAt_cons_drop (by omega), ← byteAt_cons_drop (by omega), ← byteAt_cons_drop (by omega),
    ← byteAt_cons_drop (by omega), List.drop_zero]

section
variable {data : List Byte} {p : Payload}

/-- What a report shows, byte by byte. -/
theorem shows_iff {m₀ m₁ m₂ m₃ m₄ m₅ m₆ b₀ b₁ b₂ b₃ b₄ b₅ b₆ : Byte} (h : 7 ≤ data.length)
    (hmask : p.mask = [m₀, m₁, m₂, m₃, m₄, m₅, m₆])
    (hdata : p.data = [b₀, b₁, b₂, b₃, b₄, b₅, b₆]) :
    p.Shows data ↔ m₀ &&& byteAt data 0 = b₀ ∧ m₁ &&& byteAt data 1 = b₁ ∧
      m₂ &&& byteAt data 2 = b₂ ∧ m₃ &&& byteAt data 3 = b₃ ∧ m₄ &&& byteAt data 4 = b₄ ∧
      m₅ &&& byteAt data 5 = b₅ ∧ m₆ &&& byteAt data 6 = b₆ := by
  rw [Payload.Shows, hmask, hdata, eq_seven h]
  simp only [List.zipWith_cons_cons, List.zipWith_nil_left, List.cons.injEq, and_true]
  rfl

theorem decodeReportSwVersion_iff (h : 7 ≤ data.length) :
    decodeReportSwVersion data 7 = .ok p ↔ p.id = 11 ∧ p.WellFormed ∧ p.Shows data := by
  rw [decodeReportSwVersion, if_neg (by decide), Except.ok.injEq]
  cases p with
  | swVersion d =>
    obtain ⟨major, minor, revision⟩ := d
    rw [shows_iff h rfl rfl]
    simp only [Payload.swVersion.injEq, SwVersion.mk.injEq, Payload.id, Payload.WellFormed,
      mask_all, mask_none, and_true, true_and]
  | _ => simp [Payload.id]

theorem shows_status (h : 7 ≤ data.length) (d : Status) : (Payload.status d).Shows data ↔
    StatusCode.ofByte (byteAt data 0) = some d.code ∧
      StatusError.ofByte (byteAt data 1) = some d.error ∧
        byteAt data 2 = BitVec.ofNat 8 d.lastCmdId := by
  rw [shows_iff h rfl rfl, ofByte_value, ofByte_error_value]
  simp only [mask_all, mask_none, and_true]

theorem decodeReportStatus_iff (h : 7 ≤ data.length) :
    decodeReportStatus data 7 = .ok p ↔ p.id = 40 ∧ p.WellFormed ∧ p.Shows data := by
  rw [decodeReportStatus, if_neg (by decide)]
  have hstatus : p.id = 40 → ∃ d, p = .status d := by
    intro hid
    cases p with
    | status d => exact ⟨d, rfl⟩
    | _ => cases hid
  constructor
  · intro hp
    split at hp
    · cases hp
    · rename_i code hcode
      split at hp
      · cases hp
      · rename_i error herror
        cases hp
        refine ⟨rfl, (byteAt data 2).isLt, (shows_status h _).2 ⟨hcode, herror, ?_⟩⟩
        exact (toNat_eq_iff (byteAt data 2).isLt).1 rfl
  · rintro ⟨hid, hwf, hshows⟩
    obtain ⟨d, rfl⟩ := hstatus hid
    obtain ⟨hcode, herror, hcmd⟩ := (shows_status h d).1 hshows
    simp only [hcode, herror, (toNat_eq_iff hwf).2 hcmd]

theorem decodeReportTsData_iff (h : 7 ≤ data.length) :
    decodeReportTsData data 7 = .ok p ↔ p.id = 75 ∧ p.WellFormed ∧ p.Shows data := by
  rw [decodeReportTsData, if_neg (by decide), Except.ok.injEq]
  cases p with
  | tsData d =>
    obtain ⟨pressed, inRange, valid, fingerId, x, y, contactCnt⟩ := d
    rw [shows_iff h rfl rfl]
    simp only [Payload.tsData.injEq, TsData.mk.injEq, Payload.id, Payload.WellFormed, mask_all,
      tsInfo_iff, true_and, and_assoc]
    constructor
    · rintro ⟨hp, hr, hv, hf, hx, hy, hc⟩
      have hword : ∀ b₀ b₁ : Byte, b₀.toNat + b₁.toNat <<< 8 < 2 ^ 16 := by
        intro b₀ b₁
        have h₀ := b₀.isLt
        have h₁ := b₁.isLt
        rw [Nat.shiftLeft_eq]
        omega
      have hf' : fingerId < 2 ^ 8 := hf ▸ BitVec.isLt _
      have hx' : x < 2 ^ 16 := hx ▸ hword _ _
      have hy' : y < 2 ^ 16 := hy ▸ hword _ _
      have hc' : contactCnt < 2 ^ 8 := hc ▸ BitVec.isLt _
      obtain ⟨hx₀, hx₁⟩ := (word_eq_iff hx').1 hx
      obtain ⟨hy₀, hy₁⟩ := (word_eq_iff hy').1 hy
      exact ⟨hf', hx', hy', hc', hp, hr, hv, (toNat_eq_iff hf').1 hf, hx₀, hx₁, hy₀, hy₁,
        (toNat_eq_iff hc').1 hc⟩
    · rintro ⟨hf, hx, hy, hc, hp, hr, hv, h₁, h₂, h₃, h₄, h₅, h₆⟩
      exact ⟨hp, hr, hv, (toNat_eq_iff hf).2 h₁, (word_eq_iff hx).2 ⟨h₂, h₃⟩,
        (word_eq_iff hy).2 ⟨h₄, h₅⟩, (toNat_eq_iff hc).2 h₆⟩
  | _ => simp [Payload.id]

theorem decodeReportKeyArray_iff (h : 7 ≤ data.length) :
    decodeReportKeyArray data 7 = .ok p ↔ p.id = 79 ∧ p.WellFormed ∧ p.Shows data := by
  rw [decodeReportKeyArray, if_neg (by decide), Except.ok.injEq]
  cases p with
  | keyArray d =>
    obtain ⟨numKeys, anyKeyTouched, keyTouched⟩ := d
    -- every key has one bit in one of the four bytes
    have hkeys : (fun i : Fin 32 => decide
        (byteAt data (i.val / 8 + 1) &&& ((1 : Byte) <<< (i.val % 8)) ≠ 0)) = keyTouched ↔
        ∀ k : Fin 4, byteAt data (k + 1) = keyByte ⟨numKeys, anyKeyTouched, keyTouched⟩ k := by
      simp only [funext_iff, keyByte_iff]
      constructor
      · intro hbits k i
        have := hbits ⟨8 * k + i, by omega⟩
        simp only [show (8 * k.val + i.val) / 8 = k by omega,
          show (8 * k.val + i.val) % 8 = i by omega] at this
        rwa [bit_iff _ _ i.isLt] at this
      · intro hbits i
        rw [bit_iff _ _ (Nat.mod_lt _ (by decide))]
        have := hbits ⟨i / 8, by omega⟩ ⟨i % 8, by omega⟩
        simp only [Nat.div_add_mod] at this
        exact this
    have hbytes : (∀ k : Fin 4, byteAt data (k + 1) =
        keyByte ⟨numKeys, anyKeyTouched, keyTouched⟩ k) ↔
        byteAt data 1 = keyByte ⟨numKeys, anyKeyTouched, keyTouched⟩ 0 ∧
          byteAt data 2 = keyByte ⟨numKeys, anyKeyTouched, keyTouched⟩ 1 ∧
          byteAt data 3 = keyByte ⟨numKeys, anyKeyTouched, keyTouched⟩ 2 ∧
          byteAt data 4 = keyByte ⟨numKeys, anyKeyTouched, keyTouched⟩ 3 := by
      constructor
      · intro hk
        exact ⟨hk 0, hk 1, hk 2, hk 3⟩
      · rintro ⟨h₀, h₁, h₂, h₃⟩ k
        obtain ⟨k, hk⟩ := k
        interval_cases k
        exacts [h₀, h₁, h₂, h₃]
    rw [shows_iff h rfl rfl]
    simp only [Payload.keyArray.injEq, KeyArray.mk.injEq, Payload.id, Payload.WellFormed,
      mask_all, mask_none, true_and, and_true, hkeys, hbytes]
    constructor
    · rintro ⟨hn, ha, hk⟩
      have hn' : numKeys < 2 ^ 5 := by
        have hmask : ∀ b : Byte, (b &&& 0x1F).toNat < 2 ^ 5 := by decide
        exact hn ▸ hmask _
      exact ⟨hn', (keyInfo_iff _ hn').2 ⟨hn, ha⟩, hk⟩
    · rintro ⟨hn, hinfo, hk⟩
      obtain ⟨hn', ha⟩ := (keyInfo_iff _ hn).1 hinfo
      exact ⟨hn', ha, hk⟩
  | _ => simp [Payload.id]

theorem decodeReport_iff {b : Byte} (h : 7 ≤ data.length) :
    decodeReport (b :: data) 8 = .ok p ↔ b = p.id ∧ p.WellFormed ∧ p.Shows data := by
  have hhead : byteAt (b :: data) 0 = b := rfl
  have htail : (b :: data).drop 1 = data := rfl
  have hsize : 8 - 1 = 7 := rfl
  rw [decodeReport, hhead, htail, hsize]
  by_cases h11 : b = 11
  · rw [if_pos h11, decodeReportSwVersion_iff h, h11, eq_comm]
  by_cases h40 : b = 40
  · rw [if_neg h11, if_pos h40, decodeReportStatus_iff h, h40, eq_comm]
  by_cases h75 : b = 75
  · rw [if_neg h11, if_neg h40, if_pos h75, decodeReportTsData_iff h, h75, eq_comm]
  by_cases h79 : b = 79
  · rw [if_neg h11, if_neg h40, if_neg h75, if_pos h79, decodeReportKeyArray_iff h, h79, eq_comm]
  rw [if_neg h11, if_neg h40, if_neg h75, if_neg h79]
  refine iff_of_false (by simp) ?_
  rintro ⟨hid, -, -⟩
  cases p with
  | swVersion d => exact h11 hid
  | status d => exact h40 hid
  | tsData d => exact h75 hid
  | keyArray d => exact h79 hid

end

/-- **What is accepted**: the right CRC, no frames to follow, and the data of a
    well-formed report. -/
theorem decodeFrame_iff {rcv : List Byte} (h : rcv.length = frameSize) (r : Report) :
    decodeFrame rcv frameSize = .ok r ↔ crc8 0 rcv = 0 ∧ byteAt rcv 0 = 0 ∧
      r.remainingFrames = 0 ∧ byteAt rcv 1 = r.payload.id ∧ r.payload.WellFormed ∧
      r.payload.Shows (rcv.drop 2) := by
  obtain ⟨n, p⟩ := r
  have hlen : rcv.length = 10 := h
  have hdata : 7 ≤ (rcv.drop 2).length := by
    rw [List.length_drop]
    omega
  have hreport := decodeReport_iff (b := byteAt rcv 1) (p := p) hdata
  rw [← byteAt_cons_drop (by omega)] at hreport
  rw [decodeFrame, if_neg (by simp), ← h, List.take_length]
  by_cases hcrc : crc8 0 rcv = 0
  · rw [if_neg (by simpa using hcrc)]
    by_cases hrem : byteAt rcv 0 = 0
    · rw [if_neg (by simpa using hrem), hrem]
      cases hdec : decodeReport (rcv.drop 1) 8 with
      | error e =>
        rw [hdec] at hreport
        refine iff_of_false (by simp [bind, Except.bind]) ?_
        rintro ⟨-, -, -, hp⟩
        cases hreport.2 hp
      | ok q =>
        rw [hdec, Except.ok.injEq] at hreport
        simp only [bind, Except.bind, pure, Except.pure, Except.ok.injEq, Report.mk.injEq, hreport,
          hcrc, true_and, eq_comm (a := (0 : Byte))]
    · rw [if_pos (by simpa using hrem)]
      exact iff_of_false (by simp) fun hr => hrem hr.2.1
  · rw [if_pos (by simpa using hcrc)]
    exact iff_of_false (by simp) fun hr => hcrc hr.1

/-! ## Round trip -/

theorem length_encodeFrame (p : Payload) : (encodeFrame p).length = frameSize := by
  cases p <;> rfl

/-- The data has no bits but those that matter. -/
theorem shows_data {p : Payload} (h : p.WellFormed) (rest : List Byte) :
    p.Shows (p.data ++ rest) := by
  have hlen : 7 ≤ (p.data ++ rest).length := by
    cases p <;> simp [Payload.data]
  cases p with
  | swVersion d =>
    rw [shows_iff hlen rfl rfl]
    simp only [mask_all, mask_none, and_true]
    exact ⟨rfl, rfl, rfl⟩
  | status d =>
    rw [shows_iff hlen rfl rfl]
    simp only [mask_all, mask_none, and_true]
    exact ⟨rfl, rfl, rfl⟩
  | tsData d =>
    have hinfo : ∀ p r v, (0x07 : Byte) &&& tsInfo p r v = tsInfo p r v := by decide
    rw [shows_iff hlen rfl rfl]
    simp only [mask_all]
    exact ⟨hinfo _ _ _, rfl, rfl, rfl, rfl, rfl, rfl⟩
  | keyArray d =>
    have hinfo : ∀ a, ∀ n : Fin 32, (0x9F : Byte) &&& keyInfo a n = keyInfo a n := by decide
    rw [shows_iff hlen rfl rfl]
    simp only [mask_all, mask_none, and_true]
    exact ⟨hinfo d.anyKeyTouched ⟨d.numKeys, h⟩, rfl, rfl, rfl, rfl⟩

theorem decode_encode {p : Payload} (h : p.WellFormed) :
    decodeFrame (encodeFrame p) frameSize = .ok ⟨0, p⟩ :=
  (decodeFrame_iff (length_encodeFrame p) ⟨0, p⟩).2
    ⟨crc8_withCrc _, rfl, rfl, rfl, h, shows_data h _⟩

/-- The bytes of a frame before the CRC, with the bits that matter for `p`. -/
def masked (p : Payload) (frame : List Byte) : List Byte :=
  List.zipWith (· &&& ·) (0xFF :: 0xFF :: p.mask) frame

/-- **Frames and reports**: a well-formed report comes back from its frame, and
    every frame that is accepted shows a well-formed report and is the frame of
    this report, up to bits that are ignored and the CRC. -/
theorem frame_round_trip :
    (∀ p : Payload, p.WellFormed → decodeFrame (encodeFrame p) frameSize = .ok ⟨0, p⟩) ∧
    ∀ rcv r, rcv.length = frameSize → decodeFrame rcv frameSize = .ok r →
      r.payload.WellFormed ∧ crc8 0 rcv = 0 ∧
        masked r.payload rcv = masked r.payload (encodeFrame r.payload) := by
  constructor
  · intro p h
    exact decode_encode h
  · intro rcv r hlen hok
    obtain ⟨hcrc, hrem, -, hid, hwf, hshows⟩ := (decodeFrame_iff hlen r).1 hok
    refine ⟨hwf, hcrc, ?_⟩
    have hlen' : rcv.length = 10 := hlen
    have hrcv : rcv = byteAt rcv 0 :: byteAt rcv 1 :: rcv.drop 2 := by
      rw [← byteAt_cons_drop (by omega), ← byteAt_cons_drop (by omega), List.drop_zero]
    rw [hrcv, hrem, hid, masked, List.zipWith_cons_cons, List.zipWith_cons_cons, hshows, masked,
      encodeFrame, withCrc, List.cons_append, List.cons_append, List.zipWith_cons_cons,
      List.zipWith_cons_cons, shows_data hwf]

/-! ## Corrupted frames -/

/-- The bits that are flipped on the way are one to three, an odd number, or
    stand within eight neighbours. -/
def Flipped (e : List Bool) : Prop :=
  (0 < e.count true ∧ e.count true ≤ 3) ∨ e.count true % 2 = 1 ∨
    ∃ m n burst, e = List.replicate m false ++ (burst ++ List.replicate n false) ∧
      burst.length ≤ 8 ∧ true ∈ burst

/-- It takes more shifts than a frame has bits to get from the polynomial to 1. -/
theorem crcpoly_order : ∀ d < 80, Crc.run crcpoly crcpoly (List.replicate d false) ≠ 1 := by
  decide

theorem flipped_detected {e : List Bool} (hlen : e.length ≤ 80) (h : Flipped e) :
    Crc.run crcpoly 0 e ≠ 0 := by
  have hmsb : crcpoly.msb = true := by decide
  rcases h with ⟨h0, h3⟩ | hodd | ⟨m, n, burst, rfl, hburst, htrue⟩
  · exact Crc.few_detected hmsb (by decide) crcpoly_order hlen h0 h3
  · exact Crc.odd_detected (by decide) hodd
  · exact Crc.burst_detected hmsb hburst htrue m n

/-- **A corrupted frame is not accepted.** -/
theorem corrupted_rejected {rcv rcv' : List Byte} {r : Report} (h : rcv.length = frameSize)
    (h' : rcv'.length = frameSize) (hok : decodeFrame rcv frameSize = .ok r)
    (he : Flipped (Crc.diff (frameBits rcv) (frameBits rcv'))) :
    decodeFrame rcv' frameSize = .error .EINVAL := by
  have hbits : (frameBits rcv).length = (frameBits rcv').length := by
    rw [length_frameBits, length_frameBits, h, h']
  have hlen : (Crc.diff (frameBits rcv) (frameBits rcv')).length ≤ 80 := by
    rw [Crc.diff, List.length_zipWith, length_frameBits, h]
    exact Nat.min_le_left _ _
  have hcrc : crc8 0 rcv = 0 := ((decodeFrame_iff h r).1 hok).1
  have hcrc' : crc8 0 rcv' ≠ 0 := by
    intro h0
    rw [crc8_eq] at hcrc h0
    exact flipped_detected hlen he ((Crc.run_eq_iff hbits).1 (hcrc.trans h0.symm))
  rw [decodeFrame, if_neg (by simp), ← h', List.take_length, if_pos hcrc']

/-- Version 1.2.3 does not arrive as 1.2.2. -/
theorem corrupted_rejected_version :
    decodeFrame (withCrc [11, 1, 2, 3, 0, 0, 0, 0] |>.set 4 2) frameSize = .error .EINVAL :=
  have hok : decodeFrame (encodeFrame (.swVersion ⟨1, 2, 3⟩)) frameSize =
      .ok ⟨0, .swVersion ⟨1, 2, 3⟩⟩ := decode_encode trivial
  corrupted_rejected (by rfl) rfl hok (.inl (by decide +kernel))

end MetaHipos.Rafi
