import AmlogicV901d.Lib.ByteMemory

/-!
# The key manager of the boot loader

`bl33/drivers/keymanage`, `bl33/drivers/efuse` and `bl31_apis.c:47-98`.

An error is the line that returns it. The fuses can only be set: a write of the secure
monitor burns some of its bytes. How many bytes the monitor delivers or burns, whether
memory is allocated, the boot command, the digests and the state of secure boot are
parameters; the encrypted storage is a map from names to bytes.
-/
namespace AmlogicV901d.Source.KeyManage
open Lib.ByteMemory

/-! ## Configuration -/

/-- KEY_M_EFUSE_NORMAL, KEY_M_SECURE_KEY and KEY_M_NORAML_KEY -/
inductive KeyDev
  | efuseNormal
  | secureKey
  | noramlKey
  deriving DecidableEq, Repr

structure KeyItem where
  name : String
  keyType : String
  encType : String
  dev : KeyDev
  deriving DecidableEq, Repr

structure EfusekeyInfo where
  keyname : String
  offset : Nat
  size : Nat
  deriving DecidableEq, Repr

/-- The nodes /unifykey and /efusekey of the device tree. -/
structure KeyConfig where
  items : List KeyItem
  efusekeys : List EfusekeyInfo
  deriving Repr

/-- The check of `efuse_usr_api_init_dtb` against `efuse_get_max`: with an error no key is
configured. -/
def efuseUsrApiInitDtb (maxSize : Nat) (infos : List EfusekeyInfo) : List EfusekeyInfo :=
  if infos.all fun inf => inf.offset + inf.size ≤ maxSize then infos else []

def unifykeyFindItemByName (cfg : KeyConfig) (name : String) : Option KeyItem := cfg.items.find? (·.name = name)

def keymanageDtsGetKeyDevice (cfg : KeyConfig) (keyname : String) : Option KeyDev :=
  (unifykeyFindItemByName cfg keyname).map (·.dev)

def keymanageDtsGetKeyType (cfg : KeyConfig) (keyname : String) : Option String :=
  (unifykeyFindItemByName cfg keyname).map (·.keyType)

def keymanageDtsGetEncType (cfg : KeyConfig) (keyname : String) : String :=
  ((unifykeyFindItemByName cfg keyname).map (·.encType)).getD ""

def getCfgKeyInfByname (cfg : KeyConfig) (keyname : String) : Option EfusekeyInfo :=
  cfg.efusekeys.find? (·.keyname = keyname)

/-! ## State -/

structure AmlKey where
  bytes : List UInt8
  attr : Nat
  deriving DecidableEq, Repr

/-- Indexed by the calls so far. -/
structure KeyEnv where
  delivered : Nat → Nat
  burnt : Nat → Nat
  allocated : Nat → Bool
  hashOk : Nat → Bool
  runCommand : Nat → Int
  bootVerify : Int
  sha1Csum : List UInt8 → List UInt8

/-- `burns` counts the write commands that the secure monitor was given. -/
structure KeyState where
  fuses : Memory
  keys : String → Option AmlKey
  tick : Nat
  burns : Nat

abbrev KeyM := StateM KeyState

variable (env : KeyEnv) (cfg : KeyConfig)

def nextTick : KeyM Nat := fun s => (s.tick, { s with tick := s.tick + 1 })

/-! ## Fuses -/

def efuseBytes : Nat := 512

/-- `meson_trustzone_efuse` with EFUSE_HAL_API_READ: the bytes that are delivered, none of them on
an error. -/
def halRead (count pos : Nat) : KeyM (List UInt8) := do
  let tick ← nextTick
  let s ← get
  pure (load s.fuses pos (min (env.delivered tick) count))

/-- The fuses of a range that data burns. -/
def burn (fuses : Memory) (pos : Nat) (data : List UInt8) : Memory :=
  fun a => if pos ≤ a ∧ a < pos + data.length then fuses a ||| data.getD (a - pos) 0 else fuses a

/-- `meson_trustzone_efuse` with EFUSE_HAL_API_WRITE: the number of bytes that are burnt. -/
def halWrite (data : List UInt8) (pos : Nat) : KeyM Nat := do
  let tick ← nextTick
  let n := min (env.burnt tick) data.length
  modify fun s => { s with fuses := burn s.fuses pos (data.take n), burns := s.burns + 1 }
  pure n

/-- The result, -1 or the number of bytes, and the buffer. -/
def efuseReadUsr (count pos : Nat) : KeyM (Int × List UInt8) := do
  let bytes ← halRead env count pos
  pure (if bytes = [] then -1 else bytes.length, bytes ++ List.replicate (count - bytes.length) 0)

def efuseWrite (buf : List UInt8) (pos : Nat) : KeyM Int := do
  if pos % 0x10000 ≥ efuseBytes then pure 0
  else
    let count := min buf.length ((efuseBytes + 0x100000000 - pos) % 0x100000000)
    if count > efuseBytes then pure (-1)
    else
      let n ← halWrite env (buf.take count) pos
      if n = 0 then pure (-1) else pure n

def efuseWriteUsr (buf : List UInt8) (pos : Nat) : KeyM Int :=
  if buf.length = 0 then pure (-1) else efuseWrite env buf pos

def efuseUsrApiWriteKey (keyname : String) (keydata : List UInt8) : KeyM Int := do
  match getCfgKeyInfByname cfg keyname with
  | none => pure 194
  | some inf =>
    if keydata.length ≠ inf.size then pure 198
    else
      let ret ← efuseWriteUsr env keydata inf.offset
      if ret < 0 then pure 204 else pure 0

/-- What `efuse_usr_api_read_key` makes of the result of the read. -/
def readKeyResult (cfgCnt : Nat) (ret : Int) (data : List UInt8) : Int × List UInt8 :=
  if ret = -1 then (234, data) else if ret ≠ cfgCnt then (239, data) else (0, data)

/-- The result, and what is in the buffer. -/
def efuseUsrApiReadKey (keyname : String) (bufSz : Nat) : KeyM (Int × List UInt8) := do
  match getCfgKeyInfByname cfg keyname with
  | none => pure (220, [])
  | some inf =>
    if inf.size > bufSz ∧ bufSz ≠ 0 then pure (225, [])
    else
      let (ret, data) ← efuseReadUsr env inf.size inf.offset
      pure (readKeyResult inf.size ret data)

def secureBootKeyName : String := "secure_boot_set"

def keymanageEfuseSize (keyname : String) : Nat :=
  match getCfgKeyInfByname cfg keyname with
  | none => 0
  | some inf => inf.size

def keymanageEfuseRead (keyname : String) (bufSz : Nat) : KeyM (Int × List UInt8) :=
  let cfgSz := keymanageEfuseSize cfg keyname
  if cfgSz > bufSz then pure (156, []) else efuseUsrApiReadKey env cfg keyname cfgSz

def keymanageEfuseExist (keyname : String) : KeyM Int := do
  if keyname = secureBootKeyName then pure env.bootVerify
  else
    let cfgSz := keymanageEfuseSize cfg keyname
    let tick ← nextTick
    if !env.allocated tick then pure 0
    else
      let (ret, databuf) ← keymanageEfuseRead env cfg keyname cfgSz
      -- a failed read leaves the key empty
      pure (if ret ≠ 0 then 0 else if databuf.all (· == 0) then 0 else 1)

def keymanageEfuseWrite (keyname : String) (keydata : List UInt8) : KeyM Int := do
  if keyname = secureBootKeyName then
    let tick ← nextTick
    pure (env.runCommand tick)
  else efuseUsrApiWriteKey env cfg keyname keydata

def keymanageEfuseQueryCanRead (keyname : String) : Int := if keyname = secureBootKeyName then 0 else 1

/-! ## Encrypted storage -/

def amlkeyWrite (name : String) (buffer : List UInt8) (attr : Nat) : KeyM Nat := do
  modify fun s => { s with keys := fun b => if b = name then some ⟨buffer, attr⟩ else s.keys b }
  pure buffer.length

def amlkeyRead (name : String) (len : Nat) : KeyM (List UInt8) := do
  let s ← get
  match s.keys name with
  | none => pure []
  | some key => pure (key.bytes.take len)

def amlkeySize (name : String) : KeyM Nat := do
  let s ← get
  pure ((s.keys name).elim 0 (·.bytes.length))

def amlkeyIsexsit (name : String) : KeyM Int := do
  let s ← get
  pure (if (s.keys name).isSome then 1 else 0)

def amlkeyIssecure (name : String) : KeyM Int := do
  let s ← get
  pure ((s.keys name).elim 0 fun key => if key.attr % 2 = 1 then 1 else 0)

def keymanageSecukeyWrite (keyname : String) (keydata : List UInt8) : KeyM Int := do
  let isSecure := keymanageDtsGetKeyDevice cfg keyname = some .secureKey
  let isEncrypt := keymanageDtsGetEncType cfg keyname ≠ ""
  let keyAttr := (if isSecure then 1 else 0) + (if isEncrypt then 0x100 else 0)
  let writenLen ← amlkeyWrite keyname keydata keyAttr
  if writenLen ≠ keydata.length then pure 61
  else if isSecure then
    let tick ← nextTick
    if env.hashOk tick then pure 0 else pure 89
  else pure 0

def keymanageSecukeyCanRead (keyname : String) : KeyM Int := do
  let secure ← amlkeyIssecure keyname
  pure (if secure = 0 then 1 else 0)

def keymanageSecukeyRead (keyname : String) (buflen : Nat) : KeyM (Int × List UInt8) := do
  let ret ← keymanageSecukeyCanRead keyname
  if ret = 0 then pure (119, [])
  else
    let read ← amlkeyRead keyname buflen
    if read.length ≠ buflen then pure (125, read) else pure (0, read)

/-! ## Devices -/

/-- `_SecukeyOps` and `_efuseKeyOps` -/
inductive DevKeyOps
  | secukey
  | efuse
  deriving DecidableEq, Repr

def DevKeyOps.canOverwrite : DevKeyOps → Bool
  | .secukey => true
  | .efuse => false

def DevKeyOps.pWriteFunc (ops : DevKeyOps) (keyname : String) (keydata : List UInt8) : KeyM Int :=
  match ops with
  | .secukey => keymanageSecukeyWrite env cfg keyname keydata
  | .efuse => keymanageEfuseWrite env cfg keyname keydata

def DevKeyOps.pGetSize (ops : DevKeyOps) (keyname : String) : KeyM Nat :=
  match ops with
  | .secukey => amlkeySize keyname
  | .efuse => pure (keymanageEfuseSize cfg keyname)

def DevKeyOps.pKeyExist (ops : DevKeyOps) (keyname : String) : KeyM Int :=
  match ops with
  | .secukey => amlkeyIsexsit keyname
  | .efuse => keymanageEfuseExist env cfg keyname

def DevKeyOps.pKeyCanRead (ops : DevKeyOps) (keyname : String) : KeyM Int :=
  match ops with
  | .secukey => keymanageSecukeyCanRead keyname
  | .efuse => pure (keymanageEfuseQueryCanRead keyname)

def DevKeyOps.pReadFunc (ops : DevKeyOps) (keyname : String) (buflen : Nat) : KeyM (Int × List UInt8) :=
  match ops with
  | .secukey => keymanageSecukeyRead keyname buflen
  | .efuse => keymanageEfuseRead env cfg keyname buflen

def getKmOpsByName (keyname : String) : Option DevKeyOps :=
  match keymanageDtsGetKeyDevice cfg keyname with
  | some .efuseNormal => some .efuse
  | some .noramlKey => some .secukey
  | some .secureKey => some .secukey
  | none => none

def keyUnifyQueryKeyHasConfigure (keyname : String) : Int := if (getKmOpsByName cfg keyname).isSome then 1 else 0

def keyUnifyWrite (keyname : String) (keydata : List UInt8) : KeyM Int := do
  match getKmOpsByName cfg keyname with
  | none => pure 272
  | some ops =>
    let exist ← if ops.canOverwrite then pure 0 else ops.pKeyExist env cfg keyname
    if exist ≠ 0 then pure 280 else ops.pWriteFunc env cfg keyname keydata

/-- The result, and what is written to the buffer. -/
def keyUnifyRead (keyname : String) (bufLen : Nat) : KeyM (Int × List UInt8) := do
  match getKmOpsByName cfg keyname with
  | none => pure (305, [])
  | some ops =>
    let exist ← ops.pKeyExist env cfg keyname
    if exist = 0 then pure (311, [])
    else
      let canRead ← ops.pKeyCanRead keyname
      if canRead = 0 then pure (317, [])
      else
        let keySz ← ops.pGetSize cfg keyname
        if keySz > bufLen ∧ bufLen ≠ 0 then pure (323, []) else ops.pReadFunc env cfg keyname keySz

/-- The result and the size. -/
def keyUnifyQuerySize (keyname : String) : KeyM (Int × Nat) := do
  match getKmOpsByName cfg keyname with
  | none => pure (339, 0)
  | some ops =>
    let canRead ← ops.pKeyCanRead keyname
    if canRead = 0 then pure (345, 0)
    else
      let keySz ← ops.pGetSize cfg keyname
      pure (0, keySz)

def keyUnifyQueryExist (keyname : String) : KeyM (Int × Int) := do
  match getKmOpsByName cfg keyname with
  | none => pure (360, 0)
  | some ops =>
    let exist ← ops.pKeyExist env cfg keyname
    pure (0, exist)

/-! ## Formats -/

inductive KmUsrKeyType
  | mac
  | sha1
  | hdcp2
  | raw
  deriving DecidableEq, Repr

def cfgKeyTypes (cfgType : String) : Option KmUsrKeyType :=
  if cfgType = "mac" then some .mac
  else if cfgType = "sha1" then some .sha1
  else if cfgType = "hdcp2" then some .hdcp2
  else if cfgType = "raw" then some .raw
  else none

def kmGetUserKeyFormat (srcKeyName : String) : Option KmUsrKeyType := do
  let cfgType ← keymanageDtsGetKeyType cfg srcKeyName
  let srcKeyType ← cfgKeyTypes cfgType
  if srcKeyType = .raw then
    if srcKeyName = "mac" ∨ srcKeyName = "mac_bt" ∨ srcKeyName = "mac_wifi" then some .mac
    else if srcKeyName = "hdcp2" then some .hdcp2
    else some .raw
  else some srcKeyType

/-! ### Addresses -/

def usrMacKeyLen : Nat := 17

def isxdigit (c : UInt8) : Bool := (48 ≤ c && c ≤ 57) || (65 ≤ c && c ≤ 70) || (97 ≤ c && c ≤ 102)

/-- Groups of two digits with a colon between them, or the first error. -/
def macFormat (srcKeyVal : List UInt8) : Option Int :=
  [0, 3, 6, 9, 12, 15].findSome? fun index =>
    if !(isxdigit (srcKeyVal.getD index 0) && isxdigit (srcKeyVal.getD (index + 1) 0)) then some 107
    else if srcKeyVal.getD (index + 2) 0 ≠ 58 ∧ index + 2 < usrMacKeyLen then some 112
    else none

def hexValue (c : UInt8) : UInt8 := if c ≤ 57 then c - 48 else if c ≤ 70 then c - 55 else c - 87

/-- The text as binary. -/
def macBytes (srcKeyVal : List UInt8) : List UInt8 :=
  [0, 1, 2, 3, 4, 5].map fun index =>
    hexValue (srcKeyVal.getD (index * 3) 0) * 16 + hexValue (srcKeyVal.getD (index * 3 + 1) 0)

def burnKeyInTypeMac (keyname : String) (srcKeyVal : List UInt8) : KeyM Int := do
  if srcKeyVal.length ≠ usrMacKeyLen then pure (-22)
  else match macFormat srcKeyVal, keymanageDtsGetKeyDevice cfg keyname with
    | some err, _ => pure err
    | none, none => pure 119
    | none, some .efuseNormal => do
      let (ret, targetKeyLen) ← keyUnifyQuerySize cfg keyname
      if ret ≠ 0 then pure 127
      else if targetKeyLen ≠ 6 ∧ targetKeyLen ≠ usrMacKeyLen then pure 132
      else if targetKeyLen = usrMacKeyLen then keyUnifyWrite env cfg keyname srcKeyVal
      else keyUnifyWrite env cfg keyname (macBytes srcKeyVal)
    | none, some _ => keyUnifyWrite env cfg keyname srcKeyVal

def hexDigit (n : UInt8) : UInt8 := if n < 10 then n + 48 else n + 87

/-- "%02x:" of one byte. -/
def hexText (byte : UInt8) : List UInt8 := [hexDigit (byte / 16), hexDigit (byte % 16), 58]

/-- Every round prints the whole string again with the next byte behind it, and its end. -/
def printMac (databuf : Memory) : List UInt8 → List UInt8 → Memory
  | _, [] => databuf
  | text, byte :: rest => printMac (store databuf 0 (text ++ hexText byte ++ [0])) (text ++ hexText byte) rest

def readKeyInTypeMac (keyname : String) (databuf : Memory) (bufLen : Nat) : KeyM (Int × Memory) := do
  if usrMacKeyLen > bufLen then pure (-171, databuf)
  else
    let (ret, keyDevSz) ← keyUnifyQuerySize cfg keyname
    if ret ≠ 0 then pure (-177, databuf)
    else
      let (ret, decryptBuf) ← keyUnifyRead env cfg keyname keyDevSz
      if ret ≠ 0 then pure (-183, databuf)
      else if keyDevSz = usrMacKeyLen then pure (0, store databuf 0 decryptBuf)
      else pure (ret, printMac (store databuf 0 [0]) [] (decryptBuf.take keyDevSz))

/-! ### Digests -/

def shaSumLen : Nat := 20

def burnKeyInTypeSha1 (keyname : String) (srcKeyVal : List UInt8) : KeyM Int :=
  let licLen := srcKeyVal.length - shaSumLen
  if srcKeyVal.length ≤ shaSumLen then pure 218
  else if srcKeyVal.drop licLen ≠ env.sha1Csum (srcKeyVal.take licLen) then pure 238
  else keyUnifyWrite env cfg keyname (srcKeyVal.take licLen)

/-! ### hdcp2 -/

def hdcp2RxLc128Len : Nat := 36

def hdcp2RxKeyLen : Nat := 862

def hdcp2VersionLen : Nat := 4

def hdcp2RxKeyTotalLen : Nat := hdcp2VersionLen + hdcp2RxLc128Len + hdcp2RxKeyLen

def hdcp2RxKeyLc128Name : String := "hdcp2lc128"

def hdcp2RxKeyName : String := "hdcp2key"

/-- HDCP2_RX_KEY_VERSION, in the bytes of memory. -/
def hdcp2RxKeyVersion : List UInt8 := [0, 0, 0, 2]

/-- The bits the other way round. -/
def generalDataChange (input : UInt8) : UInt8 :=
  (List.range 8).foldl (fun result i =>
    if input &&& (1 <<< UInt8.ofNat i) ≠ 0 then result ||| (1 <<< UInt8.ofNat (7 - i))
    else result &&& ~~~(1 <<< UInt8.ofNat (7 - i))) 0

def burnKeyInTypeHdcp2 (keyname : String) (databuf : List UInt8) : KeyM Int := do
  if hdcp2RxKeyTotalLen > databuf.length then pure 302
  else if databuf.take hdcp2VersionLen ≠ hdcp2RxKeyVersion then pure 306
  else
    let decryptBuf := (databuf.take hdcp2RxKeyTotalLen).map generalDataChange
    let retLen ← amlkeyWrite hdcp2RxKeyLc128Name ((decryptBuf.drop hdcp2VersionLen).take hdcp2RxLc128Len) 0
    if retLen ≠ hdcp2RxLc128Len then pure 320
    else
      let retLen ← amlkeyWrite hdcp2RxKeyName (decryptBuf.drop (hdcp2VersionLen + hdcp2RxLc128Len)) 0
      if retLen ≠ hdcp2RxKeyLen then pure 328
      else
        let retLen ← amlkeyWrite keyname (decryptBuf.take hdcp2VersionLen) 0
        if retLen ≠ hdcp2VersionLen then pure 335 else pure 0

def readKeyInTypeHdcp2 (keyname : String) (databuf : Memory) (bufLen : Nat) : KeyM (Int × Memory) := do
  if bufLen < hdcp2RxKeyTotalLen then pure (350, databuf)
  else
    let version ← amlkeyRead keyname hdcp2VersionLen
    if version.length ≠ hdcp2VersionLen then pure (359, databuf)
    else
      let keyVal ← amlkeyRead hdcp2RxKeyName hdcp2RxKeyLen
      if keyVal.length ≠ hdcp2RxKeyLen then pure (367, databuf)
      else
        let lc128 ← amlkeyRead hdcp2RxKeyLc128Name hdcp2RxLc128Len
        if lc128.length ≠ hdcp2RxLc128Len then pure (375, databuf)
        else pure (0, store databuf 0 ((version ++ lc128 ++ keyVal).map generalDataChange))

/-! ## Interface -/

def keyManageWrite (keyname : String) (keydata : List UInt8) : KeyM Int :=
  if keyUnifyQueryKeyHasConfigure cfg keyname = 0 then pure 410
  else match kmGetUserKeyFormat cfg keyname with
    | none => pure 416
    | some .mac => burnKeyInTypeMac env cfg keyname keydata
    | some .sha1 => burnKeyInTypeSha1 env cfg keyname keydata
    | some .hdcp2 => burnKeyInTypeHdcp2 keyname keydata
    | some .raw => keyUnifyWrite env cfg keyname keydata

def keyManageQueryExist (keyname : String) : KeyM (Int × Int) :=
  if keyUnifyQueryKeyHasConfigure cfg keyname = 0 then pure (555, 0) else keyUnifyQueryExist env cfg keyname

def keyManageQuerySize (keyname : String) : KeyM (Int × Nat) := do
  let (ret, exist) ← keyManageQueryExist env cfg keyname
  if ret ≠ 0 then pure (512, 0)
  else if exist = 0 then pure (516, 0)
  else match kmGetUserKeyFormat cfg keyname with
    | none => pure (522, 0)
    | some .mac => pure (0, usrMacKeyLen)
    | some .hdcp2 => pure (0, hdcp2RxKeyTotalLen)
    | some _ => keyUnifyQuerySize cfg keyname

/-- The result, and the buffer afterwards. -/
def keyManageRead (keyname : String) (keydata : Memory) (bufLen : Nat) : KeyM (Int × Memory) := do
  let (ret, keysize) ← keyManageQuerySize env cfg keyname
  if ret ≠ 0 then pure (462, keydata)
  else if keysize > bufLen then pure (466, keydata)
  else match kmGetUserKeyFormat cfg keyname with
    | none => pure (472, keydata)
    | some .mac => readKeyInTypeMac env cfg keyname keydata keysize
    | some .hdcp2 => readKeyInTypeHdcp2 keyname keydata keysize
    | some _ => do
      let (ret, bytes) ← keyUnifyRead env cfg keyname keysize
      pure (ret, store keydata 0 bytes)

end AmlogicV901d.Source.KeyManage
