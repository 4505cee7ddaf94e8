/-!
# The tables of time stamps

Source: media/frame_sync/ptsserv.c:31-100, 382-555, 691-1022, 1355-1516.

A record is named by a number, the address of its list node; `pts_search` is such a name, or
`none` for the head of the list of valid records. Taken for a record, the head reads as the
offset that a lookup is given; where a lookup would go on with it, or a check-in has no record
at all, the result is `none`. The clocks, the counters for bit rates and the registers are left
out.
-/
namespace AmlogicV901d.Source.Ptsserv

/-! ## State -/

def offsetDiff (x y : UInt32) : Int32 := (x - y).toInt32

def offsetLater (x y : UInt32) : Bool := 0 < offsetDiff x y

def offsetEqLater (x y : UInt32) : Bool := 0 ≤ offsetDiff x y

def ptsValidOffsetToCheck : Int32 := 0x08000000

def interpolateAudioResolution : Int32 := 9000

inductive PtsType
  | video
  | audio
  deriving DecidableEq, Repr

inductive PtsStatus
  | idle
  | init
  | loading
  | running
  | deinit
  deriving DecidableEq, Repr

structure PtsRec where
  id : Nat
  offset : UInt32
  val : UInt32
  size : UInt32
  ptsUS64 : UInt64
  deriving DecidableEq, Repr

structure PtsTable where
  status : PtsStatus
  lookupThreshold : Int32
  lookupCacheOffset : UInt32
  lookupCacheValid : Bool
  lookupCachePts : UInt32
  lookupCachePtsUS64 : UInt64
  firstCheckinPts : UInt32
  firstCheckinPtsUS64 : UInt64
  firstLookupOk : Bool
  firstLookupIsFail : Bool
  ptsSearch : Option Nat
  validList : List PtsRec
  freeList : List Nat
  lastCheckinOffset : UInt32
  deriving Repr

/-- `recs` are the records that `alloc_pts_list` gets. -/
def ptsStart (recs : Option (List Nat)) (t : PtsTable) : Int × PtsTable :=
  if t.status = .idle then
    match recs with
    | none => (-12, { t with status := .init, validList := [], freeList := [] })
    | some ids => (0, { t with
        status := .loading
        validList := []
        freeList := ids
        firstCheckinPts := 0xffffffff
        firstLookupOk := false
        firstLookupIsFail := false
        lastCheckinOffset := 0
        ptsSearch := none
        lookupCacheValid := false })
  else (-16, t)

/-! ## Check-in -/

/-- The size of the last record, if it is the one that was checked in last. -/
def resizeLast (offset lastOffset : UInt32) : List PtsRec → List PtsRec
  | [] => []
  | [rec] =>
    if rec.offset = lastOffset then [{ rec with size := if offset > lastOffset then offset - lastOffset else 0 }]
    else [rec]
  | rec :: recs => rec :: resizeLast offset lastOffset recs

/-- A free record, or the first valid one; the records that stay valid, and those that stay free. -/
def takeRec (valid : List PtsRec) (free : List Nat) : Option (Nat × List PtsRec × List Nat) :=
  match free, valid with
  | id :: free, valid => some (id, valid, free)
  | [], rec :: valid => some (rec.id, valid, [])
  | [], [] => none

def ptsCheckinOffsetInline (offset val : UInt32) (uS64 : UInt64) (t : PtsTable) : Option (Int × PtsTable) :=
  if t.status = .running ∨ t.status = .loading then
    let t := if t.firstCheckinPts = 0xffffffff then { t with firstCheckinPts := val, firstCheckinPtsUS64 := uS64 } else t
    let valid := resizeLast offset t.lastCheckinOffset t.validList
    let size := if t.lastCheckinOffset > 0 ∧ offset > t.lastCheckinOffset then offset - t.lastCheckinOffset
      else (valid.getLast?.map (·.size)).getD 0
    match takeRec valid t.freeList with
    | none => none
    | some (id, valid, free) => some (0, { t with
        status := .running
        validList := valid ++ [⟨id, offset, val, size, uS64⟩]
        freeList := free
        -- pts_checkin_offset_calc_cached
        lastCheckinOffset := if offsetLater offset t.lastCheckinOffset then offset else t.lastCheckinOffset })
  else some (-22, t)

/-! ## Lookup -/

/-- Which of the returns a lookup takes, with what it stores for its caller. -/
inductive Answer
  | fail
  | cached (val : UInt32) (uS64 : UInt64)
  | record (val : UInt32) (uS64 : UInt64) (size : UInt32)
  | interpolated (val : UInt32) (uS64 : UInt64)
  | firstCheckin (val : UInt32) (uS64 : UInt64)
  deriving DecidableEq, Repr

/-- Records far behind the lookup are given up. -/
def prune (offset : UInt32) : List PtsRec → List Nat → Option Nat → List PtsRec × List Nat × Option Nat
  | [], free, search => ([], free, search)
  | rec :: recs, free, search =>
    if offsetDiff offset rec.offset > ptsValidOffsetToCheck then
      prune offset recs (free ++ [rec.id]) (if search = some rec.id then recs.head?.map (·.id) else search)
    else (rec :: recs, free, search)

/-- The records before the one with the name, the last one first; that record; and the ones
behind it. -/
def splitAtId (id : Nat) : List PtsRec → List PtsRec → Option (List PtsRec × PtsRec × List PtsRec)
  | _, [] => none
  | before, rec :: recs => if rec.id = id then some (before, rec, recs) else splitAtId id (rec :: before) recs

/-- Where a search starts. -/
def searchStart (search : Option Nat) (valid : List PtsRec) : Option (List PtsRec × PtsRec × List PtsRec) :=
  match search, valid with
  | none, [] => none
  | none, rec :: recs => some ([], rec, recs)
  | some id, valid => splitAtId id [] valid

/-- The loop forward: the records it passes, the last one that is not later, and the one it stops
at, with `none` for the head. -/
def forward (offset : UInt32) : PtsRec → List PtsRec → List PtsRec × PtsRec × Option PtsRec
  | p2, [] => ([], p2, none)
  | p2, p :: recs =>
    if offsetLater p.offset offset then ([], p2, some p)
    else
      let (passed, last, stop) := forward offset p recs
      (p2 :: passed, last, stop)

/-- The loop backward. -/
def backward (offset : UInt32) (before : List PtsRec) : Option PtsRec :=
  before.find? fun p => offsetEqLater offset p.offset

/-- `abs` of an `int` -/
def intAbs (x : Int32) : Int32 := if x < 0 then -x else x

/-- What is looked up: a record, or the head that was taken for one. -/
inductive Candidate
  | item (p : PtsRec)
  | head
  deriving DecidableEq, Repr

/-- The candidate, and the records that are passed. -/
def searchFrom (type : PtsType) (offset : UInt32) (threshold : Int32) (headOffset : UInt32)
    (before : List PtsRec) (p : PtsRec) (after : List PtsRec) : Option Candidate × List PtsRec :=
  if offsetLater offset p.offset then
    let (passed, p2, stop) := forward offset p after
    -- if p2 lookup fail, set p2 = p
    let stopOffset := (stop.map (·.offset)).getD headOffset
    let candidate :=
      if type = .video ∧ offsetDiff offset p2.offset > threshold ∧ intAbs (offsetDiff offset stopOffset) < threshold then
        (stop.map Candidate.item).getD .head
      else .item p2
    (some candidate, passed)
  else if offsetLater p.offset offset then ((backward offset before).map .item, [])
  else (some (.item p), [])

/-- The name of the record before another one, `none` for the head. -/
def prevId (id : Nat) : Option Nat → List PtsRec → Option Nat
  | _, [] => none
  | prev, rec :: recs => if rec.id = id then prev else prevId id (some rec.id) recs

/-- The record behind another one. -/
def nextRec (id : Nat) : List PtsRec → Option PtsRec
  | [] => none
  | rec :: recs => if rec.id = id then recs.head? else nextRec id recs

/-- A record is used up. -/
def consume (id : Nat) (offset val : UInt32) (t : PtsTable) : PtsTable :=
  { t with
    lookupCachePts := val
    lookupCacheOffset := offset
    lookupCacheValid := true
    ptsSearch := prevId id none t.validList
    validList := t.validList.filter (·.id ≠ id)
    freeList := t.freeList ++ [id]
    firstLookupOk := true }

/-- When the first lookup failed, the first check-in is used instead. -/
def lookupFailed (t : PtsTable) : Answer × PtsTable :=
  if t.firstLookupOk then (.fail, t)
  else (.firstCheckin t.firstCheckinPts t.firstCheckinPtsUS64, { t with firstLookupOk := true, firstLookupIsFail := true })

def valDiff (x y : UInt32) : Int32 := (x - y).toInt32

/-- Between `p2` and the next record. -/
def interpolate (offset : UInt32) (p2 p : PtsRec) : UInt32 :=
  (((p.val.toUInt64 - p2.val.toUInt64) * (offset - p2.offset).toUInt64) / (p.offset - p2.offset).toUInt64 + p2.val.toUInt64).toUInt32

/-- What a record is looked up as; the value 0 is not a valid one. -/
def finish (type : PtsType) (offset : UInt32) (threshold : Int32) (p2 : PtsRec) (t : PtsTable) : Answer × PtsTable :=
  if offsetDiff offset p2.offset < threshold then
    let val := if p2.val = 0 then 1 else p2.val
    (.record val p2.ptsUS64 p2.size, { consume p2.id offset val t with lookupCachePtsUS64 := p2.ptsUS64 })
  else
    match type, nextRec p2.id t.validList with
    | .audio, some p =>
      if valDiff p.val p2.val < interpolateAudioResolution ∧ 0 ≤ valDiff p.val p2.val then
        let val := interpolate offset p2 p
        (.interpolated val (val.toUInt64 <<< 32), consume p2.id offset val t)
      else (.fail, t)
    | _, _ => lookupFailed t

/-- Audio gives up what it passes. -/
def dropPassed (type : PtsType) (passed : List PtsRec) (t : PtsTable) : PtsTable :=
  if type = .audio then
    { t with
      validList := t.validList.filter fun rec => !passed.any (·.id = rec.id)
      freeList := t.freeList ++ passed.map (·.id) }
  else t

def threshold (ptsMargin : UInt32) (t : PtsTable) : Int32 :=
  let base := if ptsMargin = 0 then t.lookupThreshold else ptsMargin.toInt32
  if t.firstLookupOk then base else base <<< 1

/-- Only video gives up the far records. -/
def pruneTable (type : PtsType) (offset : UInt32) (t : PtsTable) : PtsTable :=
  let lists := if type = .video then prune offset t.validList t.freeList t.ptsSearch else (t.validList, t.freeList, t.ptsSearch)
  { t with validList := lists.1, freeList := lists.2.1, ptsSearch := lists.2.2 }

/-- The lookup in the list of valid records. -/
def lookupIn (type : PtsType) (offset : UInt32) (threshold : Int32) (headOffset : UInt32) (t : PtsTable) : Option (Answer × PtsTable) :=
  if t.validList = [] then some (.fail, t)
  else
    match searchStart t.ptsSearch t.validList with
    | none => none
    | some (before, p, after) =>
      match searchFrom type offset threshold headOffset before p after with
      | (none, _) => some (lookupFailed t)
      | (some .head, _) => none
      | (some (.item p2), passed) => some (finish type offset threshold p2 (dropPassed type passed t))

def ptsLookupOffsetInlineLocked (type : PtsType) (offset ptsMargin headOffset : UInt32) (t : PtsTable) : Option (Answer × PtsTable) :=
  if t.status ≠ .running then some (.fail, t)
  else if t.lookupCacheValid ∧ offset = t.lookupCacheOffset then some (.cached t.lookupCachePts t.lookupCachePtsUS64, t)
  else lookupIn type offset (threshold ptsMargin t) headOffset (pruneTable type offset t)

end AmlogicV901d.Source.Ptsserv
