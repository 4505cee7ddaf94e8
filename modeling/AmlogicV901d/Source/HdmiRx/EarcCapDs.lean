/-!
# The eARC capability data structure

`vin/tvin/hdmirx/hdmi_rx_edid.c`: `parse_earc_cap_ds`, as `edid_splice_earc_capds` calls it, with
an output of EARC_CAP_DS_MAX_LENGTH bytes. The outer `none` is an access outside: a byte read at or
behind the length, or written behind the output.
-/
namespace AmlogicV901d.Source.HdmiRx.EarcCapDs

def earcCapDsMaxLength : Nat := 256
def earcCapBlockMax : Nat := 3
def capDsVer : UInt8 := 1

/-- EARC_CAP_BLOCK_ID_1, EARC_CAP_BLOCK_ID_2 and EARC_CAP_BLOCK_ID_3 -/
def isCapBlock (id : UInt8) : Bool := id = 1 || id = 2 || id = 3

/-- The loop, with `left` blocks until EARC_CAP_BLOCK_MAX, the bytes of `cap_ds_in` from `index_in`
on, and those of `raw_edid_out` up to `index_out`. -/
def parseBlocks : Nat → List UInt8 → List UInt8 → Option (List UInt8)
  | 0, _, out => some out
  | _, [], out => some out
  | left + 1, edidByte :: data, out =>
    if isCapBlock edidByte then
      match data with
      | [] => none
      | payloadLen :: data =>
        let n := payloadLen.toNat
        if data.length < n ∨ earcCapDsMaxLength < out.length + n then none
        else parseBlocks left (data.drop n) (out ++ data.take n)
    else some out

/-- The inner `none` is the return of false. -/
def parseEarcCapDs : List UInt8 → Option (Option (List UInt8))
  | [] => some none
  | ver :: data =>
    if earcCapDsMaxLength < data.length + 1 ∨ ver ≠ capDsVer then some none
    else (parseBlocks earcCapBlockMax data []).map some

end AmlogicV901d.Source.HdmiRx.EarcCapDs
