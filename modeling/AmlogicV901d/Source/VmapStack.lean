import Mathlib.Logic.Function.Basic

/-!
# Kernel stacks mapped on demand

`memory_ext/vmap_stack.c`.

Page table entries are known by the page of the area they are for. A page that the page
allocator gives has a number of its own. Whether it gives one, and whether there are page
tables for an entry, are inputs. The number of cached pages is the length of their list. The
stack of a task is one of the area, or of the linear mapping, which the area is not part of.
A stack pointer below the size of the registers is no address of the area, and neither is what
the subtraction then gives.
-/
namespace AmlogicV901d.Source.VmapStack

/-- PAGE_SIZE -/
def pageSize : Nat := 4096

structure Config where
  /-- address of `root_vm` -/
  rootAddr : Nat
  /-- THREAD_SIZE_ORDER -/
  threadSizeOrder : Nat
  /-- MAX_TASKS -/
  maxTasks : Nat
  /-- pages of `root_vm` behind the last stack -/
  guardPages : Nat
  /-- VMAP_CACHE_PAGE -/
  vmapCachePage : Nat
  /-- size of `struct pt_regs` -/
  regsSize : Nat
  /-- CONFIG_ARM64; CONFIG_ARM if not -/
  arm64 : Bool

namespace Config

def stackPages (c : Config) : Nat := 1 <<< c.threadSizeOrder

/-- THREAD_SIZE -/
def threadSize (c : Config) : Nat := pageSize * c.stackPages

def pages (c : Config) : Nat := c.maxTasks * c.stackPages + c.guardPages

def isVmapAddr (c : Config) (addr : Nat) : Bool := c.rootAddr ≤ addr && addr < c.rootAddr + pageSize * c.pages

def pageOf (c : Config) (addr : Nat) : Nat := (addr - c.rootAddr) / pageSize

/-- The page of a stack that STACK_TOP_PAGE_OFF is in. -/
def topPage (c : Config) (bitmapNo : Nat) : Nat := bitmapNo * c.stackPages + (c.stackPages - 1)

def stackFloorPage (c : Config) (addr : Nat) : Bool :=
  let pos := addr % c.threadSize
  if c.threadSizeOrder > 1 then pos < pageSize else pos < pageSize / 4

end Config

inductive Stack where
  | slot (bitmapNo : Nat)
  | linear
  deriving DecidableEq

structure Sys where
  bitmap : Nat → Bool
  startBit : Nat
  /-- cached pages -/
  list : List Nat
  pte : Nat → Option Nat
  vmapStackSize : Int
  /-- `tsk->stack` -/
  stack : Nat → Option Stack
  /-- pages that were given back to the page allocator -/
  given : List Nat
  /-- number of the next page of the page allocator -/
  fresh : Nat

/-- `vmap_mmu_set` for a page; `tables` says that there are page tables. -/
def vmapMmuSet (tables : Bool) (page v : Nat) (s : Sys) : Sys :=
  if tables then { s with pte := Function.update s.pte v (some page) } else s

def updateVmapStack (diff : Int) (s : Sys) : Sys := { s with vmapStackSize := s.vmapStackSize + diff }

/-! ## Faults -/

def getVmapCachedPage (s : Sys) : Option (Nat × Sys) :=
  match s.list with
  | [] => none
  | page :: rest => some (page, { s with list := rest })

/-- A cached page is mapped. Where there is none, what is then mapped is no page. -/
def mapCachedPage (tables : Bool) (v : Nat) (s : Sys) : Option Sys :=
  (getVmapCachedPage s).map fun (page, s) => updateVmapStack 1 (vmapMmuSet tables page v s)

def checkSpFaultAgain (c : Config) (tables : Bool) (sp : Nat) (s : Sys) : Option Sys :=
  let addr := sp - c.regsSize
  if c.isVmapAddr addr && sp != 0 && addr / pageSize != sp / pageSize then mapCachedPage tables (c.pageOf addr) s
  else some s

def checkPteExist (c : Config) (addr : Nat) (s : Sys) : Option Nat := s.pte (c.pageOf addr)

def checkAddrUpFlow (c : Config) (addr : Nat) (s : Sys) : Bool :=
  c.stackFloorPage addr && (checkPteExist c (addr + pageSize) s).isNone

def einval : Int := 22
def erange : Int := 34

def handleVmapFault (c : Config) (tables : Bool) (addr sp : Nat) (s : Sys) : Option (Sys × Int) :=
  if !c.isVmapAddr addr then (checkSpFaultAgain c tables sp s).map (·, -einval)
  else if checkAddrUpFlow c addr s then (checkSpFaultAgain c tables sp s).map (·, -erange)
  else if !c.arm64 && (checkPteExist c addr s).isSome then (checkSpFaultAgain c tables sp s).map (·, -einval)
  else (mapCachedPage tables (c.pageOf addr) s).map (·, 0)

/-! ## Stacks -/

def findZeroBit (bitmap : Nat → Bool) (size : Nat) : Nat → Nat → Nat
  | 0, _ => size
  | n + 1, i => if bitmap i then findZeroBit bitmap size n (i + 1) else i

def findNextZeroBit (bitmap : Nat → Bool) (size offset : Nat) : Nat := findZeroBit bitmap size (size - offset) offset

/-- `page` says that there is a page for the stack, `kmalloc` that there are pages of the linear mapping. -/
def amlStackAlloc (c : Config) (t : Nat) (page tables kmalloc : Bool) (s : Sys) : Sys :=
  let bitmapNo := findNextZeroBit s.bitmap c.maxTasks s.startBit
  let s := { s with startBit := bitmapNo + 1 }
  if bitmapNo ≥ c.maxTasks then
    { s with stack := Function.update s.stack t (if kmalloc then some .linear else none) }
  else if page then
    let s := updateVmapStack 1 (vmapMmuSet tables s.fresh (c.topPage bitmapNo) s)
    { s with
      fresh := s.fresh + 1
      bitmap := Function.update s.bitmap bitmapNo true
      stack := Function.update s.stack t (some (.slot bitmapNo)) }
  else { s with stack := Function.update s.stack t none }

/-- A page that was unmapped goes to the cache, or back. -/
def putPage (c : Config) (page : Nat) (s : Sys) : Sys :=
  if s.list.length < c.vmapCachePage then { s with list := s.list ++ [page] } else { s with given := s.given ++ [page] }

/-- The loop of `aml_stack_free`, for the lowest pages of a stack, from the top. -/
def freePages (c : Config) (bitmapNo : Nat) : Nat → Sys → Sys
  | 0, s => s
  | k + 1, s =>
    match s.pte (bitmapNo * c.stackPages + k) with
    | none => s
    | some page =>
      freePages c bitmapNo k
        (updateVmapStack (-1) (putPage c page
          { s with pte := Function.update s.pte (bitmapNo * c.stackPages + k) none }))

def amlStackFree (c : Config) (t : Nat) (s : Sys) : Sys :=
  match s.stack t with
  | none => s
  | some .linear => { s with stack := Function.update s.stack t none }
  | some (.slot bitmapNo) =>
    let s := freePages c bitmapNo c.stackPages s
    { s with
      bitmap := Function.update s.bitmap bitmapNo false
      startBit := if bitmapNo < s.startBit then bitmapNo else s.startBit
      stack := Function.update s.stack t none }

/-- `n` is how many pages the allocator gives at most. -/
def pageCacheMaintainWork (c : Config) (n : Nat) (s : Sys) : Sys :=
  let i := min n (c.vmapCachePage - s.list.length)
  { s with list := (List.range' s.fresh i).reverse ++ s.list, fresh := s.fresh + i }

/-! ## Runs -/

inductive Event where
  | alloc (t : Nat) (page tables kmalloc : Bool)
  | fault (addr sp : Nat) (tables : Bool)
  | free (t : Nat)
  | maintain (n : Nat)
  deriving DecidableEq

def step (c : Config) (s : Sys) : Event → Option Sys
  | .alloc t page tables kmalloc => some (amlStackAlloc c t page tables kmalloc s)
  | .fault addr sp tables => (handleVmapFault c tables addr sp s).map Prod.fst
  | .free t => some (amlStackFree c t s)
  | .maintain n => some (pageCacheMaintainWork c n s)

/-- After `thread_stack_cache_init`. -/
def initial (c : Config) : Sys where
  bitmap := fun _ => false
  startBit := 0
  list := (List.range c.vmapCachePage).reverse
  pte := fun _ => none
  vmapStackSize := 0
  stack := fun _ => none
  given := []
  fresh := c.vmapCachePage

end AmlogicV901d.Source.VmapStack
