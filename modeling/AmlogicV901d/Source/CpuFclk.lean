import AmlogicV901d.Lib.BitField

/-!
# CPU clock with two paths

`clk/clk-cpu-fclk-composite.c`. One register holds, for each of two paths, a pre-mux, a
divider and a post-mux, and the final mux that selects a path. The functions return what
they write to the register, in order. `change` is a rate change as the clock framework
performs it; the rates of the parent clocks are the framework's and a parameter.
-/
namespace AmlogicV901d.Source.CpuFclk
open Lib.BitField

abbrev Reg := BitVec 32

structure ParmFclk where
  shift : Nat
  width : Nat
  mask : Reg

structure FclkRateTable where
  rate : UInt64
  premux : UInt16
  postmux : UInt16
  muxDiv : UInt16
  deriving DecidableEq

structure MesonCpuMuxDivider where
  table : Option (List Reg)
  cpuFclkP00 : ParmFclk
  cpuFclkP0 : ParmFclk
  cpuFclkP10 : ParmFclk
  cpuFclkP1 : ParmFclk
  cpuFclkP : ParmFclk
  cpuFclkP01 : ParmFclk
  cpuFclkP11 : ParmFclk
  rateTable : List FclkRateTable
  flags : Reg
  numParents : Nat

def mesonDynEnable : Reg := 1 <<< 26
def clkMuxIndexOne : Reg := 1
def clkMuxIndexBit : Reg := 2
def clkMuxHiwordMask : Reg := 4

def gapRate : Int64 := 10 * 1000 * 1000

/-- `abs(rate - entry.rate) < gap_rate` on the signed difference. -/
def nearRate (rate entryRate : UInt64) : Bool :=
  let diff := (rate - entryRate).toInt64
  (if diff < 0 then -diff else diff) < gapRate

def mesonFclkGetPllSettings (pll : MesonCpuMuxDivider) (rate : UInt64) : Option FclkRateTable :=
  pll.rateTable.find? fun entry => nearRate rate entry.rate

/-- The final mux selects the second path. -/
def finalDyn (d : MesonCpuMuxDivider) (val : Reg) : Bool := (val >>> d.cpuFclkP.shift) &&& d.cpuFclkP.mask ≠ 0

/-- The end of `meson_fclk_cpu_get_parent`: the index of a value in the mux table. -/
def tableIndex (d : MesonCpuMuxDivider) (val : Reg) : UInt8 :=
  match d.table with
  | none => UInt8.ofNat val.toNat
  | some table =>
    match (List.range d.numParents).find? fun i => table.getD i 0 = val with
    | some i => UInt8.ofNat i
    | none => UInt8.ofNat val.toNat

def mesonFclkCpuGetParent (d : MesonCpuMuxDivider) (reg : Reg) : UInt8 :=
  let premux := if finalDyn d reg then d.cpuFclkP10 else d.cpuFclkP00
  let val := (reg >>> premux.shift) &&& premux.mask
  if val.toNat ≥ d.numParents then -22 else tableIndex d val

/-- `ffs` -/
def ffs (index : UInt8) : Nat :=
  match (List.range 8).find? fun i => index.toBitVec.getLsbD i with
  | some i => i + 1
  | none => 0

def mesonFclkCpuSetParent (d : MesonCpuMuxDivider) (reg : Reg) (index : UInt8) : Reg :=
  let premux := if finalDyn d reg then d.cpuFclkP00 else d.cpuFclkP10
  let index : UInt8 :=
    match d.table with
    | some table => UInt8.ofNat (table.getD index.toNat 0).toNat
    | none =>
      let index := if d.flags &&& clkMuxIndexBit ≠ 0 then UInt8.ofNat (1 <<< ffs index) else index
      if d.flags &&& clkMuxIndexOne ≠ 0 then index + 1 else index
  let val := if d.flags &&& clkMuxHiwordMask ≠ 0 then premux.mask <<< (premux.shift + 16)
    else reg &&& ~~~(premux.mask <<< premux.shift)
  val ||| (BitVec.ofNat 32 index.toNat <<< premux.shift)

/-- `PARM_SET` -/
def parmSet (p : ParmFclk) (reg val : Reg) : Reg := put p.shift p.width reg val

def mesonFclkDividerSetRate (d : MesonCpuMuxDivider) (reg : Reg) (rate parentRate : UInt64) : Option (List Reg) :=
  if parentRate = 0 ∨ rate = 0 then none
  else
    let postmux := if finalDyn d reg then d.cpuFclkP0 else d.cpuFclkP1
    let div := if finalDyn d reg then d.cpuFclkP01 else d.cpuFclkP11
    match mesonFclkGetPllSettings d rate with
    | none => none
    | some rateSet =>
      let val := parmSet div reg (BitVec.ofNat 32 rateSet.muxDiv.toNat)
      let val' := parmSet postmux val (BitVec.ofNat 32 rateSet.postmux.toNat)
      let val'' := if finalDyn d val' then val' &&& ~~~((1 : Reg) <<< d.cpuFclkP.shift)
        else val' ||| ((1 : Reg) <<< d.cpuFclkP.shift)
      some [reg ||| mesonDynEnable, val, val', val'']

/-- The chosen parent, its rate and the writes. -/
def mesonFclkMuxDividerDetermineRate (d : MesonCpuMuxDivider) (parentRate : Nat → Option UInt64) (reg : Reg) (rate : UInt64) :
    Option (UInt16 × UInt64 × List Reg) :=
  match mesonFclkGetPllSettings d rate with
  | none => none
  | some rateSet =>
    if rateSet.premux.toNat ≥ d.numParents then none
    else
      match parentRate rateSet.premux.toNat with
      | none => none
      | some best =>
        some (rateSet.premux, best, if best ≠ rate then [mesonFclkCpuSetParent d reg rateSet.premux.toUInt8] else [])

/-- The register after some writes. -/
def after (reg : Reg) (writes : List Reg) : Reg := writes.getLastD reg

/-- Whether the change succeeds, and all the writes. -/
def change (d : MesonCpuMuxDivider) (parentRate : Nat → Option UInt64) (reg : Reg) (rate : UInt64) : Bool × List Reg :=
  match mesonFclkMuxDividerDetermineRate d parentRate reg rate with
  | none => (false, [])
  | some (premux, best, writes) =>
    let writes := if (mesonFclkCpuGetParent d reg).toNat ≠ premux.toNat then
      writes ++ [mesonFclkCpuSetParent d (after reg writes) premux.toUInt8] else writes
    match mesonFclkDividerSetRate d (after reg writes) rate best with
    | none => (false, writes)
    | some writes' => (true, writes ++ writes')

/-- The clocks of the SoC drivers: `g12a_cpu_fclk_p` and `g12b_cpu_fclk_p` with 3 parents, `tl1_cpu_fclk_p` with 4. -/
def cpuFclkP (numParents : Nat) (rateTable : List FclkRateTable) : MesonCpuMuxDivider where
  cpuFclkP00 := ⟨0, 2, 3⟩
  cpuFclkP0 := ⟨2, 1, 1⟩
  cpuFclkP10 := ⟨16, 2, 3⟩
  cpuFclkP1 := ⟨18, 1, 1⟩
  cpuFclkP := ⟨10, 1, 1⟩
  cpuFclkP01 := ⟨4, 6, 0⟩
  cpuFclkP11 := ⟨20, 6, 0⟩
  table := some ((List.range numParents).map (BitVec.ofNat 32))
  rateTable
  flags := 0
  numParents

/-- `fclk_pll_rate_table` -/
def fclkPllRateTable : List FclkRateTable :=
  [⟨50000000, 1, 1, 19⟩, ⟨100000000, 1, 1, 9⟩, ⟨167000000, 2, 1, 3⟩, ⟨200000000, 1, 1, 4⟩, ⟨250000000, 1, 1, 3⟩,
    ⟨333000000, 2, 1, 1⟩, ⟨500000000, 1, 1, 1⟩, ⟨667000000, 2, 0, 0⟩, ⟨1000000000, 1, 0, 0⟩]

end AmlogicV901d.Source.CpuFclk
