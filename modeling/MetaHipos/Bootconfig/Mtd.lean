/-
  The flash device under `lowlevel.c` and the calls made to it.

  Only the first bytes of an erase block matter here: `bootconfig` reads and
  writes at offset 0.  An erase block is erased to `0xFF` as a whole and
  programmed by clearing bits, i.e. a write is ANDed with the old content.

  libmtd itself is not modelled.  Each call is answered by a response of the
  environment, which is free to fail; what a failed erase or write leaves on
  its block is part of the response.  All calls and responses are logged.
-/
import Mathlib.Logic.Function.Basic
import MetaHipos.Process.Wp
import MetaHipos.Bootconfig.Layout

namespace MetaHipos

open LittleEndian Process

/-! ## Flash -/

/-- The content of an erase block, byte by byte. -/
abbrev Page := ℕ → Byte

namespace Page

/-- An erased page. -/
def erased : Page := fun _ => 0xFF

/-- Program the bytes `buf` at the start of a block. -/
def program (pg : Page) (buf : List Byte) : Page := fun k => pg k &&& buf.getD k 0xFF

/-- The header at the start of a block. -/
def hdr (pg : Page) : Btblock := .ofBytes pg

/-- What is left when programming or erasing a block fails: the block with
    its old content, without a valid magic, or with the complete new content. -/
inductive Left where
  | kept
  | spoiled (pg : { pg : Page // pg.hdr.magic ≠ .boot })
  | complete

/-- The content after a failure that left `l`, between `old` and `new`. -/
def Left.page (l : Left) (old new : Page) : Page :=
  match l with
  | .kept => old
  | .spoiled pg => pg.1
  | .complete => new

theorem hdr_erased_magic : erased.hdr.magic ≠ .boot := by decide

theorem getD_of_prefix {buf : List Byte} {b : Btblock} (h : b.bytes <+: buf) {k : ℕ}
    (hk : k < Btblock.size) : buf.getD k 0xFF = b.byte k := by
  obtain ⟨rest, rfl⟩ := h
  have hk' : k < b.bytes.length := by simpa using hk
  simp only [Btblock.byte, List.getD_eq_getElem?_getD, List.getElem?_append_left hk',
    List.getElem?_eq_getElem hk', Option.getD_some]

/-- Programming a block ANDs its header. -/
theorem hdr_program (pg : Page) {buf : List Byte} {b : Btblock} (h : b.bytes <+: buf) :
    (pg.program buf).hdr = pg.hdr.and b := by
  rw [← Btblock.ofBytes_byte (pg.hdr.and b)]
  refine Btblock.ofBytes_congr fun k hk => ?_
  rw [Btblock.byte_and _ _ hk, program, getD_of_prefix h hk, hdr, Btblock.byte_ofBytes _ hk]

/-- Programming an erased block stores the buffer. -/
theorem hdr_program_erased {buf : List Byte} {b : Btblock} (h : b.bytes <+: buf) :
    (erased.program buf).hdr = b := by
  rw [← Btblock.ofBytes_byte b]
  refine Btblock.ofBytes_congr fun k hk => ?_
  simp only [program, erased, getD_of_prefix h hk]
  exact BitVec.allOnes_and

end Page

/-- The flash with the given configs in the first blocks. -/
def flashOf (bs : List Btblock) (i : ℕ) : Page :=
  match bs[i]? with
  | some b => Page.erased.program b.bytes
  | none => .erased

/-! ## Calls -/

/-- `struct mtd_dev_info` -/
structure MtdDevInfo where
  ebCnt : ℕ
  minIoSize : ℕ
deriving DecidableEq, Repr

/-- The calls of `lowlevel.c` to libmtd and libc. -/
inductive Op where
  | openDev (dev : String)
  | libmtdOpen
  | mtdGetDevInfo (dev : String)
  | malloc (size : ℕ)
  | time
  | mtdIsBad (eb : ℕ)
  | mtdRead (eb : ℕ)
  | mtdErase (eb : ℕ)
  | mtdWrite (eb : ℕ) (page : List Byte)
deriving DecidableEq, Repr

/-- What a call returns to the program: an `int`, whether a pointer is not
    `NULL`, the filled-in device info, or the bytes read (`none` if `mtd_read`
    left its buffer alone). -/
@[reducible] def Ans : Op → Type
  | .openDev _ => ℤ
  | .libmtdOpen => Bool
  | .mtdGetDevInfo _ => ℤ × MtdDevInfo
  | .malloc _ => Bool
  | .time => BitVec 32
  | .mtdIsBad _ => ℤ
  | .mtdRead _ => ℤ × Option Btblock
  | .mtdErase _ => ℤ
  | .mtdWrite .. => ℤ

/-- The outcome of an erase or a write: its return value and what it leaves
    behind if that is negative. -/
structure Outcome where
  ret : ℤ
  left : Page.Left

/-- What the environment decides about a call. -/
@[reducible] def Resp : Op → Type
  | .openDev _ => ℤ
  | .libmtdOpen => Bool
  | .mtdGetDevInfo _ => ℤ × MtdDevInfo
  | .malloc _ => Bool
  | .time => BitVec 32
  | .mtdIsBad _ => ℤ
  | .mtdRead _ => ℤ
  | .mtdErase _ => Outcome
  | .mtdWrite .. => Outcome

/-- A call and its response. -/
abbrev Event := (o : Op) × Resp o

/-- The flash, and the calls made so far, the latest first. -/
structure World where
  flash : ℕ → Page
  log : List Event

/-- `EUCLEAN`: read with bit flips that were corrected. -/
def EUCLEAN : ℤ := 117

/-- `mtd_read` delivered the block. -/
def Delivers (ret : ℤ) : Prop := ret = 0 ∨ ret = -EUCLEAN

instance (ret : ℤ) : Decidable (Delivers ret) := inferInstanceAs (Decidable (_ ∨ _))

/-- The flash after a call. -/
def flashAfter (flash : ℕ → Page) : (o : Op) → Resp o → ℕ → Page
  | .mtdErase i, r => Function.update flash i
      (if r.ret < 0 then r.left.page (flash i) .erased else .erased)
  | .mtdWrite i buf, r => Function.update flash i
      (if r.ret < 0 then r.left.page (flash i) ((flash i).program buf) else (flash i).program buf)
  | _, _ => flash

/-- The device as an environment. -/
def mtd : Env Op Ans Resp World where
  reply
    | .openDev _, r, _ => r
    | .libmtdOpen, r, _ => r
    | .mtdGetDevInfo _, r, _ => r
    | .malloc _, r, _ => r
    | .time, r, _ => r
    | .mtdIsBad _, r, _ => r
    | .mtdRead i, r, w => (r, if Delivers r then some (w.flash i).hdr else none)
    | .mtdErase _, r, _ => r.ret
    | .mtdWrite .., r, _ => r.ret
  next o r w := ⟨flashAfter w.flash o r, ⟨o, r⟩ :: w.log⟩

/-- The world after the call `o` was given the response `r`. -/
def World.after (w : World) (o : Op) (r : Resp o) : World := mtd.next o r w

section
variable (w : World) (o : Op) (r : Resp o)


@[simp] theorem after_log : (w.after o r).log = ⟨o, r⟩ :: w.log := rfl

theorem after_flash : (w.after o r).flash = flashAfter w.flash o r := rfl

/-- The block a call erases or writes, if any. -/
def Op.target : Op → Option ℕ
  | .mtdErase i => some i
  | .mtdWrite i _ => some i
  | _ => none

/-- **Only the target of a call changes.** -/
theorem after_flash_of_ne {j : ℕ} (h : o.target ≠ some j) : (w.after o r).flash j = w.flash j := by
  cases o <;> simp only [after_flash, flashAfter]
  all_goals exact Function.update_of_ne (fun he => h (by rw [he]; rfl)) ..

end

/-! ## Programs -/

/-- How a process ends: `exit`, undefined behaviour, or not at all (a loop
    that ran out of the iterations it is given in the model). -/
inductive Stop where
  | exit (status : ℤ)
  | fault
  | hang
deriving DecidableEq, Repr

/-- Code that calls the MTD library. -/
abbrev Mtd := Proc Op Ans Stop

end MetaHipos
