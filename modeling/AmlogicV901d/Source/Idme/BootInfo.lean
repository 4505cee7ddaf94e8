import AmlogicV901d.Source.Idme.Platform

/-!
# The boot counter

`idme/cmd_idme.c:109-117, 259-295`: `atoui` and `idme_boot_info`. The buffer `boot_count_str`
has 9 bytes; what `idme_get_var` leaves in it stays behind the text that is printed into it.
-/
namespace AmlogicV901d.Source.Idme
open Lib.ByteMemory Lib.Strings

/-- `is_digit` -/
def isDigit (c : UInt8) : Bool := 0x30 ≤ c ∧ c ≤ 0x39

/-- The loop of `atoui`. The NUL that ends it is no digit, and nine digits fit an `int`. -/
def atoui (i : Nat) : List UInt8 → Nat
  | [] => i
  | c :: s => if isDigit c then atoui (i * 10 + c.toNat - 0x30) s else i

def bootcount : CString := ⟨[0x62, 0x6f, 0x6f, 0x74, 0x63, 0x6f, 0x75, 0x6e, 0x74], by decide⟩

/-- What `%d` prints. -/
def decimal (value : Nat) : List UInt8 := (Nat.toDigits 10 value).map fun c => UInt8.ofNat c.toNat

def snprintf (buf : Memory) (size : Nat) (text : List UInt8) : Memory := store buf 0 (text.take (size - 1) ++ [0])

def idmeBootInfo (wr : BlockCall) (s : IdmeState) : IdmeState :=
  match s.handlers with
  | .null => s
  | .v2p0 =>
    let (ret, bootCountStr) := idmeGetVarV2p0 bootcount (some zeroed) 9 s.pidme
    if ret ≠ 0 then s
    else
      let bootCountStr := bootCountStr.getD zeroed
      let value := atoui 0 (load bootCountStr 0 9)
      if value = 99999999 then s
      else
        (idmeUpdateVarEx wr s (some bootcount) (some (snprintf bootCountStr 9 (decimal (value + 1))))
          (UInt32.ofNat configIdmeSize)).2

end AmlogicV901d.Source.Idme
