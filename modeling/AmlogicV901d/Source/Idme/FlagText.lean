/-!
# The names of flags

`ufbl-features/include/idme.h:139-200`: `fos_flags_to_str`. Of the buffer only what was written is
kept, since every write begins at the NUL of the one before. Without a buffer `bufsize` is 0.
-/
namespace AmlogicV901d.Source.Idme

def idmeFlagsTable : List (List Char) :=
  ["FOS_FLAGS_NONE", "FOS_FLAGS_ADB_ON", "FOS_FLAGS_ADB_ROOT", "FOS_FLAGS_CONSOLE_ON", "FOS_FLAGS_RAMDUMP_ON",
    "FOS_FLAGS_VERBOSITY_ON", "FOS_FLAGS_ADB_AUTH_DISABLE", "FOS_FLAGS_FORCE_DM_VERITY", "FOS_FLAGS_DM_VERITY_OFF",
    "FOS_FLAGS_BOOT_DEXOPT"].map String.toList

structure Printed where
  buf : List Char
  sizeNeeded : Nat
  s : Nat
  deriving DecidableEq, Repr

/-- `snprintf(buf + s, bufsize - s, ...)` -/
def Printed.snprintf (bufsize : Nat) (text : List Char) (p : Printed) : Printed where
  buf := if bufsize - p.s = 0 then p.buf else p.buf.take p.s ++ text.take (bufsize - p.s - 1) ++ ['\x00']
  sizeNeeded := p.sizeNeeded + text.length
  s := min (p.sizeNeeded + text.length) bufsize

/-- The loop over flags that are not 0, with the names from `pos` on. -/
def flagLoop (bufsize : Nat) : List (List Char) → Nat → Printed → Nat × Printed
  | [], flags, p => (flags, p)
  | name :: names, flags, p =>
    let p := if flags % 2 = 1 then p.snprintf bufsize (name ++ if flags ≤ 1 then [] else ['|']) else p
    if flags / 2 = 0 then (0, p) else flagLoop bufsize names (flags / 2) p

/-- `!UNKNOWN FLAGS 0x%llx!` -/
def unknownFlags (flags : Nat) : List Char := "!UNKNOWN FLAGS 0x".toList ++ Nat.toDigits 16 flags ++ ['!']

/-- The flags that are left are shifted back, by `pos - 1`. -/
def handleUnknown (bufsize : Nat) (left : Nat × Printed) : Printed :=
  if left.1 = 0 then left.2 else left.2.snprintf bufsize (unknownFlags (left.1 <<< (idmeFlagsTable.length - 1)))

/-- The result, and what is written. -/
def fosFlagsToStr (flags : UInt64) (buf : Bool) (bufsize : UInt32) : Nat × List Char :=
  let bufsize := if buf then bufsize.toNat else 0
  let start : Printed := ⟨[], 0, 0⟩
  let p := handleUnknown bufsize
    -- without a flag the first iteration goes back to the first name, and is the last one
    (if flags = 0 then (0, start.snprintf bufsize (idmeFlagsTable.headD []))
    else flagLoop bufsize idmeFlagsTable.tail flags.toNat start)
  (if p.sizeNeeded ≤ bufsize then 0 else p.sizeNeeded + 1, p.buf)

end AmlogicV901d.Source.Idme
