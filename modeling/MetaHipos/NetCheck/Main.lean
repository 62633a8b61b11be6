/-
  The network parameters: the script `hipos-net-check.py`.

  The script compares the MAC address and the speed of the network in the device
  identity with those in the environment of U-Boot, and writes the latter where
  they differ.  It reads and writes the environment with command lines that it
  gives to the shell.

  * `main`: the script;
  * `netEnv`: the device it runs on; a line that the shell reads as anything but
    one of the calls of the script may do anything to the environment of U-Boot.
-/
import Mathlib.Data.List.DropRight
import MetaHipos.NetCheck.Search
import MetaHipos.Process.Wp

namespace MetaHipos.NetCheck

open Words PosixShell Process

/-! ## Texts -/

/-- `str.lower`: lower case has no other lower case. -/
structure Lower where
  lower : Text → Text
  lower_lower : ∀ t, lower (lower t) = lower t
  lower_eq_nil : ∀ t, lower t = [] ↔ t = []
  lower_newline : ∀ t, (∀ c ∈ t, isNewline c = false) → ∀ c ∈ lower t, isNewline c = false

/-- A capital becomes a letter that is no capital; anything else is kept. -/
theorem toLower_cases (c : Char) :
    c.toLower = c ∨ (c.toLower.toLower = c.toLower ∧ c.toLower ≠ '\n') := by
  by_cases h : 'A'.val ≤ c.val ∧ c.val ≤ 'Z'.val
  · have hval : c.toLower.val = c.val + 32 := congrArg Char.val (dif_pos h)
    refine Or.inr ⟨dif_neg ?_, fun hc => ?_⟩
    · grind
    · rw [hc] at hval
      grind
  · exact Or.inl (dif_neg h)

/-- The lower case of ASCII. -/
def asciiLower : Lower where
  lower t := t.map Char.toLower
  lower_lower t := by
    rw [List.map_map]
    refine List.map_congr_left fun c _ => ?_
    rcases toLower_cases c with h | ⟨h, -⟩
    · rw [Function.comp_apply, h, h]
    · exact h
  lower_eq_nil t := List.map_eq_nil_iff
  lower_newline t h c hc := by
    obtain ⟨d, hd, rfl⟩ := List.mem_map.1 hc
    rcases toLower_cases d with hl | ⟨-, hl⟩
    · rw [hl]
      exact h d hd
    · exact beq_eq_false_iff_ne.2 hl

/-- What `read` makes of the ends of the lines of a file. -/
def universalNewlines : Text → Text
  | [] => []
  | '\r' :: '\n' :: cs => '\n' :: universalNewlines cs
  | '\r' :: cs => '\n' :: universalNewlines cs
  | c :: cs => c :: universalNewlines cs

/-- `str.isspace`, for one character. -/
def isSpace (c : Char) : Bool :=
  c.toNat ∈ [0x9, 0xa, 0xb, 0xc, 0xd, 0x1c, 0x1d, 0x1e, 0x1f, 0x20, 0x85, 0xa0, 0x1680, 0x2000,
    0x2001, 0x2002, 0x2003, 0x2004, 0x2005, 0x2006, 0x2007, 0x2008, 0x2009, 0x200a, 0x2028, 0x2029,
    0x202f, 0x205f, 0x3000]

/-- `str.rstrip` -/
def rstrip (text : Text) : Text := text.rdropWhile isSpace

/-- `str.strip` -/
def strip (text : Text) : Text := rstrip (text.dropWhile isSpace)

/-! ## The script -/

/-- Why a file cannot be read: there is none, or it is not text. -/
inductive ReadError where
  | ioError
  | unicodeDecodeError
deriving DecidableEq

/-- How the script ends before it is done. -/
inductive Exit where
  | exit (code : ℕ)
  | uncaught
deriving DecidableEq

/-- The calls of the script: `open` and `read`, `subprocess.check_output` with
    `shell=True`, and `print`. -/
inductive NetOp where
  | read (file : String)
  | checkOutput (line : Text)
  | print (text : Text)

/-- `check_output` has no output if the line fails. -/
@[reducible] def NetAns : NetOp → Type
  | .read _ => Except ReadError Text
  | .checkOutput _ => Option Text
  | .print _ => Unit

/-- The script, as a process. -/
abbrev Net := Proc NetOp NetAns Exit

/-- `open(file).read()` -/
def openRead (file : String) : Net (Except ReadError Text) := .ask (NetOp.read file)

/-- `subprocess.check_output(line, shell=True)`, which may fail. -/
def shell (line : Text) : Net (Option Text) := .ask (NetOp.checkOutput line)

/-- `print` -/
def print (text : Text) : Net Unit := .ask (NetOp.print text)

/-- `read_file` -/
def readFile (file : String) : Net Text := do
  match ← openRead file with
  | .ok text => pure (rstrip (universalNewlines text))
  | .error .ioError => .stop (.exit 0)
  | .error .unicodeDecodeError => .stop .uncaught

/-- `subprocess.check_output(line, shell=True).decode("utf-8")` -/
def checkOutput (line : Text) : Net Text := do
  match ← shell line with
  | some output => pure output
  | none => .stop .uncaught

/-- `DEVIDFILE` -/
def devidfile : String := "/etc/hydraip-devid"

/-- The line that asks for the machine. -/
def machinfoLine : Text := "/usr/sbin/hip-machinfo -a".toList

/-- The option of the tools for the environment: some machines keep it elsewhere. -/
def fwOpt (machine : Text) : Text :=
  if machine = "himx0294-ipcam".toList ∨ machine = "himx0294-impec".toList then
    "-c /etc/fw_env-ipcam.config".toList
  else []

/-- The program that prints the environment. -/
def fwPrintenv : Text := "fw_printenv".toList

/-- The program that sets a variable of the environment. -/
def fwSetenv : Text := "fw_setenv".toList

/-- `f"fw_printenv {fw_opt}"` -/
def printenvLine (opt : Text) : Text := fwPrintenv ++ ' ' :: opt

/-- `f"fw_setenv {fw_opt} {param} {devidvalue}"` -/
def setenvLine (opt param devidvalue : Text) : Text :=
  fwSetenv ++ ' ' :: opt ++ ' ' :: param ++ ' ' :: devidvalue

/-- The parameters that are kept in step. -/
def parameters : List Text := ["ethaddr".toList, "lanspeed".toList]

/-- The body of the loop over the parameters. -/
def syncParam (L : Lower) (devidcontent ubootcontent opt param : Text) : Net Unit :=
  match reSearch param devidcontent with
  | none => pure ()
  | some devidvalue => do
    let devidvalue := L.lower devidvalue
    let ubootvalue := (reSearch param ubootcontent).map L.lower
    if some devidvalue ≠ ubootvalue then
      print ("Update u-boot env: ".toList ++ param ++ ' ' :: devidvalue)
      let _ ← checkOutput (setenvLine opt param devidvalue)

/-- `main` -/
def main (L : Lower) : Net Unit := do
  let devidcontent ← readFile devidfile
  let machine := strip (← checkOutput machinfoLine)
  let opt := fwOpt machine
  let ubootcontent ← checkOutput (printenvLine opt)
  forEach (fun param _ => syncParam L devidcontent ubootcontent opt param) parameters ()

/-! ## The device -/

/-- The files, what `hip-machinfo -a` prints, the environment of U-Boot, and the
    lines the shell was given, each with the commands it ran. -/
structure Board where
  files : String → Except ReadError Text
  machinfo : Text
  env : UbootEnv
  ran : List (Text × List (List Text))

/-- The option of the script on this board, and its words. -/
def Board.opt (b : Board) : Text := fwOpt (strip b.machinfo)

/-- The calls of programs the script makes. -/
inductive Call where
  | machinfo
  | printenv
  | setenv (param : Text) (args : List Text)

/-- The words of a call. -/
def Call.command (opt : Text) : Call → List Text
  | .machinfo => words isBlank machinfoLine
  | .printenv => fwPrintenv :: words isBlank opt
  | .setenv param args => fwSetenv :: (words isBlank opt ++ param :: args)

/-- The call that a command is. -/
def callOf (opt : Text) (command : List Text) : Option Call :=
  if command = Call.machinfo.command opt then some .machinfo
  else if command = Call.printenv.command opt then some .printenv
  else
    match command.drop (words isBlank opt).length.succ with
    | [] => none
    | param :: args =>
      if param ∈ parameters ∧ command = (Call.setenv param args).command opt then
        some (.setenv param args)
      else none

/-- The call that the shell reads a line as, if it is one and nothing else. -/
def shellCall (sh : Shell) (opt line : Text) : Option Call :=
  match sh.commands line with
  | [command] => callOf opt command
  | _ => none

/-- What a call prints. -/
def Call.output (b : Board) : Call → Text
  | .machinfo => b.machinfo
  | .printenv => NetCheck.printenv b.env
  | .setenv _ _ => []

/-- What a call makes of the environment: `fw_setenv` stores its arguments with
    single blanks between them. -/
def Call.effect (env : UbootEnv) : Call → UbootEnv
  | .setenv param args => NetCheck.setenv env param (joinWith ' ' args)
  | _ => env

/-- What a line does that is not one call of the script: its output if it
    succeeds, and the environment it leaves. -/
structure Outcome where
  output : Option Text
  env : UbootEnv

/-- What the outside responds: what a line does that is no call. -/
@[reducible] def NetResp : NetOp → Type
  | .checkOutput _ => Outcome
  | _ => Unit

/-- The calls of the script do not fail. -/
def netEnv (sh : Shell) : Env NetOp NetAns NetResp Board where
  reply
    | .read file, _, b => b.files file
    | .checkOutput line, r, b =>
      match shellCall sh b.opt line with
      | some call => some (call.output b)
      | none => r.output
    | .print _, _, _ => ()
  next
    | .checkOutput line, r, b =>
      { b with
        env := match shellCall sh b.opt line with
          | some call => call.effect b.env
          | none => r.env
        ran := b.ran ++ [(line, sh.commands line)] }
    | _, _, b => b

/-- The board after a run of the script. -/
def run (sh : Shell) (L : Lower) (b : Board) (ω : Oracle NetResp) : Board :=
  (exec (netEnv sh) (main L) { b with ran := [] } ω).2.1

end MetaHipos.NetCheck
