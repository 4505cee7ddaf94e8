import AmlogicV901d.Guarantees.OtpKeys

/-!
# Burned keys read back

What a successful write of a key stores, and when the query of its size and a read into a
buffer of that size deliver it again.
-/
namespace AmlogicV901d.Guarantees.BurnedKeys
open Lib.ByteMemory Lib.StateTriple Source.KeyManage OtpKeys List

/-! ## What is promised -/

/-- Lower case. -/
def toLower (c : UInt8) : UInt8 := if 65 ≤ c ∧ c ≤ 90 then c + 32 else c

/-- The data of a key against the data written. -/
def Delivered (fmt : KmUsrKeyType) (written bytes : List UInt8) : Prop :=
  match fmt with
  | .mac => bytes.map toLower = written.map toLower
  | .sha1 => bytes = written.take (written.length - shaSumLen)
  | .hdcp2 => bytes = written.take hdcp2RxKeyTotalLen
  | .raw => bytes = written

/-- The query of the size and the read after it. -/
def ReadsBack (env : KeyEnv) (cfg : KeyConfig) (keyname : String) (fmt : KmUsrKeyType) (written : List UInt8)
    (s : KeyState) : Prop :=
  ∀ buffer, ∃ size s1 after s2, keyManageQuerySize env cfg keyname s = ((0, size), s1) ∧
    keyManageRead env cfg keyname buffer size s1 = ((0, after), s2) ∧ (∀ a, size ≤ a → after a = buffer a) ∧
    Delivered fmt written (load after 0 size)

/-- Every access to the fuses succeeds. -/
def Succeeds (env : KeyEnv) : Prop :=
  ∀ tick, env.allocated tick = true ∧ efuseBytes ≤ env.delivered tick ∧ efuseBytes ≤ env.burnt tick

/-- Keys that may be read. -/
def NonSecure (cfg : KeyConfig) (keyname : String) : Prop :=
  keymanageDtsGetKeyDevice cfg keyname = some .noramlKey ∨
    (keymanageDtsGetKeyDevice cfg keyname = some .efuseNormal ∧ keyname ≠ secureBootKeyName)

/-- Two names are used for the parts of an hdcp2 key. -/
def OwnName (keyname : String) : Prop := keyname ≠ hdcp2RxKeyLc128Name ∧ keyname ≠ hdcp2RxKeyName

/-- On the fuses a key is there if one of its bytes is not 0, and an address has to be stored as
text; the parts of an hdcp2 key are not stored there at all. -/
def Readable (cfg : KeyConfig) (keyname : String) (fmt : KmUsrKeyType) (written : List UInt8) (s : KeyState) : Prop :=
  match fmt with
  | .hdcp2 => OwnName keyname ∧ (keymanageDtsGetKeyDevice cfg keyname = some .efuseNormal → ¬ OtpKeys.Empty cfg keyname s)
  | .mac => keymanageDtsGetKeyDevice cfg keyname = some .efuseNormal → keymanageEfuseSize cfg keyname = usrMacKeyLen
  | .sha1 => keymanageDtsGetKeyDevice cfg keyname = some .efuseNormal →
      ∃ b ∈ written.take (written.length - shaSumLen), b ≠ 0
  | .raw => keymanageDtsGetKeyDevice cfg keyname = some .efuseNormal → ∃ b ∈ written, b ≠ 0

/-! ## Stored keys -/

/-- The bytes that a device has for a key. -/
def Stores (cfg : KeyConfig) (keyname : String) (bytes : List UInt8) (s : KeyState) : DevKeyOps → Prop
  | .secukey => ∃ attr, s.keys keyname = some ⟨bytes, attr⟩ ∧ attr % 2 = 0
  | .efuse => keyname ≠ secureBootKeyName ∧ ∃ inf, getCfgKeyInfByname cfg keyname = some inf ∧ 0 < inf.size ∧
      inf.size ≤ efuseBytes ∧ load s.fuses inf.offset inf.size = bytes

/-- What the existence check of a device looks at. -/
def Present (cfg : KeyConfig) (keyname : String) (s : KeyState) : DevKeyOps → Prop
  | .secukey => (s.keys keyname).isSome
  | .efuse => ¬ OtpKeys.Empty cfg keyname s

/-- A device serves the key: it has its room in the fuses, and no access to them fails. -/
structure Served (env : KeyEnv) (cfg : KeyConfig) (keyname : String) (ops : DevKeyOps) : Prop where
  succeeds : Succeeds env
  room : ∀ inf, getCfgKeyInfByname cfg keyname = some inf → inf.offset + inf.size ≤ efuseBytes
  name : ops = .efuse → keyname ≠ secureBootKeyName
  device : getKmOpsByName cfg keyname = some ops

section Stored
variable {env : KeyEnv} {cfg : KeyConfig} {keyname : String} {bytes : List UInt8} {ops : DevKeyOps} {s : KeyState}

section
variable (h : Stores cfg keyname bytes s ops)
include h

theorem stores_tick (tick : Nat) : Stores cfg keyname bytes { s with tick } ops := by
  cases ops <;> exact h

omit h in
theorem present_tick (h : Present cfg keyname s ops) (tick : Nat) : Present cfg keyname { s with tick } ops := by
  cases ops <;> exact h

theorem stores_present : Present cfg keyname s ops ↔ (ops = .efuse → ∃ b ∈ bytes, b ≠ 0) := by
  cases ops with
  | secukey =>
    obtain ⟨attr, hkey, _⟩ := h
    refine ⟨fun _ heq => absurd heq (by decide), fun _ => ?_⟩
    show (s.keys keyname).isSome
    rw [hkey]
    rfl
  | efuse =>
    obtain ⟨_, inf, hinf, _, _, hload⟩ := h
    have hstored : storedBytes cfg keyname s.fuses = bytes := by
      rw [storedBytes, hinf]
      exact hload
    show ¬ (∀ b ∈ storedBytes cfg keyname s.fuses, b = 0) ↔ _
    rw [hstored]
    constructor
    · intro hnot _
      exact Classical.byContradiction fun hnone => hnot fun b hb => Classical.byContradiction fun hne => hnone ⟨b, hb, hne⟩
    · intro hsome hall
      obtain ⟨b, hb, hne⟩ := hsome rfl
      exact hne (hall b hb)

omit h in
theorem Served.fits (hserved : Served env cfg keyname ops) : keymanageEfuseSize cfg keyname ≤ efuseBytes := by
  rw [keymanageEfuseSize]
  split
  · exact Nat.zero_le _
  · next inf hinf => exact Nat.le_trans (Nat.le_add_left _ _) (hserved.room inf hinf)

omit h in
theorem exist_run (hserved : Served env cfg keyname ops) (s : KeyState) : ∃ exist tick,
    ops.pKeyExist env cfg keyname s = (exist, { s with tick }) ∧ (exist ≠ 0 ↔ Present cfg keyname s ops) := by
  cases ops with
  | secukey =>
    refine ⟨_, s.tick, rfl, ?_⟩
    show (if (s.keys keyname).isSome then (1 : Int) else 0) ≠ 0 ↔ (s.keys keyname).isSome
    split <;> simp_all
  | efuse =>
    obtain ⟨exist, tick, hexist, hfound⟩ := efuseExist_run (hserved.name rfl) s
    have hreads : CheckReads env cfg keyname s := ⟨(hserved.succeeds _).1, Nat.le_trans hserved.fits (hserved.succeeds _).2.1⟩
    exact ⟨exist, tick, hexist, hfound.trans (and_iff_right hreads)⟩

theorem canRead_run : ops.pKeyCanRead keyname s = (1, s) := by
  cases ops with
  | secukey =>
    obtain ⟨attr, hkey, heven⟩ := h
    show ((if (s.keys keyname).elim (0 : Int) (fun key => if key.attr % 2 = 1 then 1 else 0) = 0 then (1 : Int) else 0), s) = _
    rw [hkey]
    show ((if (if attr % 2 = 1 then (1 : Int) else 0) = 0 then (1 : Int) else 0), s) = _
    have hodd : attr % 2 ≠ 1 := by omega
    rw [if_neg hodd, if_pos rfl]
  | efuse =>
    show (keymanageEfuseQueryCanRead keyname, s) = _
    rw [keymanageEfuseQueryCanRead, if_neg h.1]

theorem getSize_run : ops.pGetSize cfg keyname s = (bytes.length, s) := by
  cases ops with
  | secukey =>
    obtain ⟨attr, hkey, _⟩ := h
    show ((s.keys keyname).elim 0 (·.bytes.length), s) = _
    rw [hkey]
    rfl
  | efuse =>
    obtain ⟨_, inf, hinf, _, _, hload⟩ := h
    show (keymanageEfuseSize cfg keyname, s) = _
    rw [keymanageEfuseSize, hinf, ← hload, load_length]

end

theorem amlkeyRead_run {name : String} {key : AmlKey} (hkey : s.keys name = some key) (len : Nat) :
    amlkeyRead name len s = (key.bytes.take len, s) := by
  rw [amlkeyRead, get_bind, hkey]
  rfl

theorem readFunc_run (henv : Succeeds env) (h : Stores cfg keyname bytes s ops) :
    ∃ tick, ops.pReadFunc env cfg keyname bytes.length s = ((0, bytes), { s with tick }) := by
  cases ops with
  | secukey =>
    refine ⟨s.tick, ?_⟩
    have hcan : keymanageSecukeyCanRead keyname s = (1, s) := canRead_run h
    obtain ⟨attr, hkey, _⟩ := h
    have hread := amlkeyRead_run hkey bytes.length
    rw [take_length] at hread
    show keymanageSecukeyRead keyname bytes.length s = _
    rw [keymanageSecukeyRead, bind_run hcan, if_neg (by decide), bind_run hread, if_neg fun hne => hne rfl]
    rfl
  | efuse =>
    obtain ⟨_, inf, hinf, hpos, hle, hload⟩ := h
    have hlength : bytes.length = inf.size := by rw [← hload, load_length]
    refine ⟨s.tick + 1, ?_⟩
    show keymanageEfuseRead env cfg keyname bytes.length s = _
    rw [hlength, efuseRead_full hinf hpos (Nat.le_trans hle (henv _).2.1), hload]

end Stored

/-! ## Queries and reads -/

section Reads
variable {env : KeyEnv} {cfg : KeyConfig} {keyname : String} {bytes : List UInt8} {ops : DevKeyOps} {fmt : KmUsrKeyType}
  {s : KeyState}

theorem unifyQuerySize_run (hops : getKmOpsByName cfg keyname = some ops) (h : Stores cfg keyname bytes s ops) :
    keyUnifyQuerySize cfg keyname s = ((0, bytes.length), s) := by
  rw [keyUnifyQuerySize, hops]
  dsimp only
  rw [bind_run (canRead_run h), if_neg (by decide), bind_run (getSize_run h)]
  rfl

/-- The size that a format reports for a key that is there. -/
def formatSize (cfg : KeyConfig) (keyname : String) : KmUsrKeyType → KeyM (Int × Nat)
  | .mac => pure (0, usrMacKeyLen)
  | .hdcp2 => pure (0, hdcp2RxKeyTotalLen)
  | .sha1 => keyUnifyQuerySize cfg keyname
  | .raw => keyUnifyQuerySize cfg keyname

/-- The bytes of the device. -/
def plainRead (env : KeyEnv) (cfg : KeyConfig) (keyname : String) (buffer : Memory) (size : Nat) : KeyM (Int × Memory) := do
  let (ret, bytes) ← keyUnifyRead env cfg keyname size
  pure (ret, store buffer 0 bytes)

/-- The read of a format. -/
def formatRead (env : KeyEnv) (cfg : KeyConfig) (keyname : String) (buffer : Memory) (size : Nat) :
    KmUsrKeyType → KeyM (Int × Memory)
  | .mac => readKeyInTypeMac env cfg keyname buffer size
  | .hdcp2 => readKeyInTypeHdcp2 keyname buffer size
  | .sha1 => plainRead env cfg keyname buffer size
  | .raw => plainRead env cfg keyname buffer size

theorem manageRead_run {size : Nat} {s' : KeyState} (hquery : keyManageQuerySize env cfg keyname s = ((0, size), s'))
    (hfmt : kmGetUserKeyFormat cfg keyname = some fmt) (buffer : Memory) :
    keyManageRead env cfg keyname buffer size s = formatRead env cfg keyname buffer size fmt s' := by
  rw [keyManageRead, bind_run hquery]
  dsimp only
  rw [if_neg fun h => h rfl, if_neg (Nat.lt_irrefl _), hfmt]
  cases fmt <;> rfl

theorem printMac_overflows (databuf : Memory) {bytes : List UInt8} (hlength : bytes.length = 6) :
    printMac databuf [] bytes usrMacKeyLen = 58 := by
  match bytes, hlength with
  | [_, _, _, _, _, _], _ => rfl

section Configured
variable (hserved : Served env cfg keyname ops)
include hserved

theorem unifyRead_run (h : Stores cfg keyname bytes s ops) (hpresent : Present cfg keyname s ops) :
    ∃ tick, keyUnifyRead env cfg keyname bytes.length s = ((0, bytes), { s with tick }) := by
  obtain ⟨exist, tick, hexist, hfound⟩ := exist_run hserved s
  have hthere := hfound.mpr hpresent
  have hlater := stores_tick h tick
  obtain ⟨last, hread⟩ := readFunc_run hserved.succeeds hlater
  refine ⟨last, ?_⟩
  rw [keyUnifyRead, hserved.device]
  dsimp only
  rw [bind_run hexist, if_neg hthere, bind_run (canRead_run hlater), if_neg (by decide), bind_run (getSize_run hlater),
    if_neg (by omega), hread]

section
variable (hfmt : kmGetUserKeyFormat cfg keyname = some fmt)
include hfmt

theorem manageQuerySize_run (s : KeyState) : ∃ tick,
    (Present cfg keyname s ops → keyManageQuerySize env cfg keyname s = formatSize cfg keyname fmt { s with tick }) ∧
    (¬ Present cfg keyname s ops → keyManageQuerySize env cfg keyname s = ((516, 0), { s with tick })) := by
  obtain ⟨exist, tick, hexist, hfound⟩ := exist_run hserved s
  have hquery : keyManageQueryExist env cfg keyname s = ((0, exist), { s with tick }) := by
    rw [keyManageQueryExist, keyUnifyQueryKeyHasConfigure, hserved.device]
    show keyUnifyQueryExist env cfg keyname s = _
    rw [keyUnifyQueryExist, hserved.device]
    dsimp only
    rw [bind_run hexist]
    rfl
  refine ⟨tick, fun hpresent => ?_, fun habsent => ?_⟩
  · rw [keyManageQuerySize, bind_run hquery]
    dsimp only
    rw [if_neg fun h => h rfl, if_neg (hfound.mpr hpresent), hfmt]
    cases fmt <;> rfl
  · rw [keyManageQuerySize, bind_run hquery]
    dsimp only
    rw [if_neg fun h => h rfl, if_pos (Classical.not_not.mp (mt hfound.mp habsent))]
    rfl

/-- A key is read back if it is there and its format reads it. -/
theorem readsBack_iff (written : List UInt8) {size : Nat}
    (hsize : ∀ tick, formatSize cfg keyname fmt { s with tick } = ((0, size), { s with tick })) :
    ∃ tick, ReadsBack env cfg keyname fmt written s ↔ Present cfg keyname s ops ∧ ∀ buffer, ∃ after s',
      formatRead env cfg keyname buffer size fmt { s with tick } = ((0, after), s') ∧
        (∀ a, size ≤ a → after a = buffer a) ∧ Delivered fmt written (load after 0 size) := by
  obtain ⟨tick, hthere, habsent⟩ := manageQuerySize_run hserved hfmt s
  obtain ⟨again, hagain, _⟩ := manageQuerySize_run hserved hfmt { s with tick }
  have hread : Present cfg keyname s ops → ∀ buffer, keyManageRead env cfg keyname buffer size { s with tick } =
      formatRead env cfg keyname buffer size fmt { s with tick := again } := fun hpresent buffer =>
    manageRead_run ((hagain (present_tick hpresent tick)).trans (hsize again)) hfmt buffer
  refine ⟨again, fun h => ?_, fun h buffer => ?_⟩
  · have hpresent : Present cfg keyname s ops := by
      by_contra hnone
      obtain ⟨_, _, _, _, hquery, _⟩ := h zeroed
      rw [habsent hnone] at hquery
      have hret : (516 : Int) = 0 := congrArg (fun r => r.1.1) hquery
      exact nomatch hret
    refine ⟨hpresent, fun buffer => ?_⟩
    obtain ⟨size', s1, after, s', hquery, hafter, hrest⟩ := h buffer
    obtain ⟨hsize', hs1⟩ := Prod.mk.inj (hquery.symm.trans ((hthere hpresent).trans (hsize tick)))
    have heq : size' = size := congrArg Prod.snd hsize'
    subst heq hs1
    rw [hread hpresent] at hafter
    exact ⟨after, s', hafter, hrest⟩
  · obtain ⟨after, s', hafter, hrest⟩ := h.2 buffer
    exact ⟨size, { s with tick }, after, s', (hthere h.1).trans (hsize tick), (hread h.1 buffer).trans hafter, hrest⟩

theorem readsBack_plain (hplain : fmt = .sha1 ∨ fmt = .raw) {written : List UInt8}
    (hstores : Stores cfg keyname bytes s ops) (hdelivered : Delivered fmt written bytes) :
    ReadsBack env cfg keyname fmt written s ↔ Present cfg keyname s ops := by
  have hsize : ∀ tick, formatSize cfg keyname fmt { s with tick } = ((0, bytes.length), { s with tick }) := by
    intro tick
    rcases hplain with rfl | rfl <;> exact unifyQuerySize_run hserved.device (stores_tick hstores tick)
  obtain ⟨tick, hiff⟩ := readsBack_iff hserved hfmt written hsize
  refine hiff.trans ⟨And.left, fun hpresent => ⟨hpresent, fun buffer => ?_⟩⟩
  obtain ⟨last, hread⟩ := unifyRead_run hserved (stores_tick hstores tick) (present_tick hpresent tick)
  have hplainRead : plainRead env cfg keyname buffer bytes.length { s with tick } =
      ((0, store buffer 0 bytes), { s with tick := last }) := by
    rw [plainRead, bind_run hread]
    rfl
  have hformat : formatRead env cfg keyname buffer bytes.length fmt { s with tick } =
      ((0, store buffer 0 bytes), { s with tick := last }) := by
    rcases hplain with rfl | rfl <;> exact hplainRead
  refine ⟨store buffer 0 bytes, _, hformat, fun a ha => store_outside (.inr (by omega)), ?_⟩
  rw [load_store]
  exact hdelivered

end

theorem readMac_run (hstores : Stores cfg keyname bytes s ops) (hpresent : Present cfg keyname s ops) (buffer : Memory) :
    ∃ last, readKeyInTypeMac env cfg keyname buffer usrMacKeyLen s =
      ((0, if bytes.length = usrMacKeyLen then store buffer 0 bytes else printMac (store buffer 0 [0]) [] bytes),
        { s with tick := last }) := by
  obtain ⟨last, hread⟩ := unifyRead_run hserved hstores hpresent
  refine ⟨last, ?_⟩
  rw [readKeyInTypeMac, if_neg (Nat.lt_irrefl _), bind_run (unifyQuerySize_run hserved.device hstores)]
  dsimp only
  rw [if_neg fun h => h rfl, bind_run hread]
  rw [if_neg fun h => h rfl, take_length]
  split <;> rfl

theorem readsBack_text (hfmt : kmGetUserKeyFormat cfg keyname = some .mac) (hstores : Stores cfg keyname bytes s ops)
    (hlength : bytes.length = usrMacKeyLen) : ReadsBack env cfg keyname .mac bytes s ↔ Present cfg keyname s ops := by
  obtain ⟨tick, hiff⟩ := readsBack_iff hserved hfmt bytes fun _ => rfl
  refine hiff.trans ⟨And.left, fun hpresent => ⟨hpresent, fun buffer => ?_⟩⟩
  obtain ⟨last, hformat⟩ := readMac_run hserved (stores_tick hstores tick) (present_tick hpresent tick) buffer
  rw [if_pos hlength] at hformat
  refine ⟨store buffer 0 bytes, _, hformat, fun a ha => store_outside (.inr (by omega)), ?_⟩
  rw [← hlength, load_store]
  rfl

theorem not_readsBack_binary (hfmt : kmGetUserKeyFormat cfg keyname = some .mac) (hstores : Stores cfg keyname bytes s ops)
    (hlength : bytes.length = 6) (written : List UInt8) : ¬ ReadsBack env cfg keyname .mac written s := by
  obtain ⟨tick, hiff⟩ := readsBack_iff hserved hfmt written fun _ => rfl
  intro h
  obtain ⟨hpresent, hreads⟩ := hiff.mp h
  obtain ⟨after, s', hformat, houtside, _⟩ := hreads zeroed
  obtain ⟨last, hprint⟩ := readMac_run hserved (stores_tick hstores tick) (present_tick hpresent tick) zeroed
  rw [if_neg (by rw [hlength]; decide)] at hprint
  have hafter : printMac (store zeroed 0 [0]) [] bytes = after :=
    congrArg (fun r => r.1.2) (hprint.symm.trans hformat)
  have hbeyond := houtside usrMacKeyLen (Nat.le_refl _)
  rw [← hafter, printMac_overflows _ hlength] at hbeyond
  exact nomatch hbeyond

end Configured

end Reads

/-! ## Writes -/

section Writes
variable {env : KeyEnv} {cfg : KeyConfig} {keyname : String} {ops : DevKeyOps} {keydata : List UInt8} {s s' : KeyState}

theorem load_burn {fuses : Memory} {pos : Nat} (hempty : ∀ b ∈ load fuses pos keydata.length, b = 0) :
    load (burn fuses pos keydata) pos keydata.length = keydata := by
  apply ext_getElem (by simp)
  intro i hi hdata
  have hzero : fuses (pos + i) = 0 := by
    have hmem := getElem_mem (l := load fuses pos keydata.length) (by simpa using hdata)
    rw [load_getElem] at hmem
    exact hempty _ hmem
  rw [load_getElem, burn, if_pos ⟨by omega, by omega⟩, hzero, Nat.add_sub_cancel_left]
  simp [hdata]

theorem efuseWrite_run {pos : Nat} (hburnt : efuseBytes ≤ env.burnt s.tick) (hpos : 0 < keydata.length)
    (hfit : pos + keydata.length ≤ efuseBytes) : efuseWriteUsr env keydata pos s =
      ((keydata.length : Int), { s with tick := s.tick + 1, fuses := burn s.fuses pos keydata, burns := s.burns + 1 }) := by
  have hbytes : efuseBytes = 512 := rfl
  have hcount : min keydata.length ((efuseBytes + 0x100000000 - pos) % 0x100000000) = keydata.length := by omega
  have hall : min (env.burnt s.tick) keydata.length = keydata.length := by omega
  have hhal : halWrite env keydata pos s =
      (keydata.length, { s with tick := s.tick + 1, fuses := burn s.fuses pos keydata, burns := s.burns + 1 }) := by
    show (min (env.burnt s.tick) keydata.length,
      { s with tick := s.tick + 1, fuses := burn s.fuses pos (keydata.take (min (env.burnt s.tick) keydata.length)),
               burns := s.burns + 1 }) = _
    rw [hall, take_length]
  rw [efuseWriteUsr, if_neg (by omega), efuseWrite, if_neg (by omega), hcount, if_neg (by omega), take_length, bind_run hhal, if_neg (by omega)]
  rfl

theorem amlkeyWrite_run (name : String) (buffer : List UInt8) (attr : Nat) (s : KeyState) : amlkeyWrite name buffer attr s =
    (buffer.length, { s with keys := fun b => if b = name then some ⟨buffer, attr⟩ else s.keys b }) := rfl

theorem not_error {e : Int} {t : KeyState} (h : (e, t) = ((0, s') : Int × KeyState)) (he : e ≠ 0) : False :=
  he (congrArg Prod.fst h)

theorem of_if_error {p : Prop} [Decidable p] {e : Int} {x : KeyM Int} (h : (if p then pure e else x : KeyM Int) s = (0, s'))
    (he : e ≠ 0) : ¬ p ∧ x s = (0, s') := by
  by_cases hp : p
  · rw [if_pos hp] at h
    exact (not_error (e := e) h he).elim
  · rw [if_neg hp] at h
    exact ⟨hp, h⟩

/-- A successful write to a device stores the data. -/
theorem unifyWrite_stores (hserved : Served env cfg keyname ops)
    (hsecure : keymanageDtsGetKeyDevice cfg keyname ≠ some .secureKey)
    (hwrite : keyUnifyWrite env cfg keyname keydata s = (0, s')) : Stores cfg keyname keydata s' ops := by
  cases ops with
  | secukey =>
    have hrun : keyUnifyWrite env cfg keyname keydata = keymanageSecukeyWrite env cfg keyname keydata := by
      rw [keyUnifyWrite, hserved.device]
      rfl
    have hkeys : (keymanageSecukeyWrite env cfg keyname keydata s).2.keys keyname =
        some ⟨keydata, 0 + (if keymanageDtsGetEncType cfg keyname ≠ "" then 0x100 else 0)⟩ := by
      rw [keymanageSecukeyWrite, bind_run (amlkeyWrite_run _ _ _ _), if_neg fun h => h rfl, if_neg hsecure,
        if_neg hsecure]
      exact if_pos rfl
    rw [← hrun, hwrite] at hkeys
    exact ⟨_, hkeys, by split <;> rfl⟩
  | efuse =>
    obtain ⟨exist, tick, hexist, hfound⟩ := efuseExist_run (hserved.name rfl) s
    rw [unifyWrite_efuse hserved.device hexist] at hwrite
    by_cases hthere : exist ≠ 0
    · rw [if_pos hthere] at hwrite
      exact (not_error (e := 280) hwrite (by decide)).elim
    rw [if_neg hthere, keymanageEfuseWrite, if_neg (hserved.name rfl), efuseUsrApiWriteKey] at hwrite
    cases hinf : getCfgKeyInfByname cfg keyname with
    | none =>
      rw [hinf] at hwrite
      exact (not_error (e := 194) hwrite (by decide)).elim
    | some inf =>
      rw [hinf] at hwrite
      obtain ⟨hlength, hwrite⟩ := of_if_error hwrite (by decide)
      have hsize : keydata.length = inf.size := Classical.not_not.mp hlength
      by_cases hpos : 0 < keydata.length
      · have hreads : CheckReads env cfg keyname s :=
          ⟨(hserved.succeeds _).1, Nat.le_trans hserved.fits (hserved.succeeds _).2.1⟩
        have hempty : OtpKeys.Empty cfg keyname s :=
          Classical.not_not.mp fun hnot => hthere (hfound.mpr ⟨hreads, hnot⟩)
        rw [OtpKeys.Empty, storedBytes, hinf] at hempty
        have hburn := @efuseWrite_run env keydata { s with tick } inf.offset (hserved.succeeds _).2.2 hpos (hsize ▸ hserved.room inf hinf)
        rw [bind_run hburn, if_neg (by omega)] at hwrite
        obtain ⟨_, hs'⟩ := Prod.mk.inj hwrite
        refine ⟨hserved.name rfl, inf, hinf, hsize ▸ hpos, Nat.le_trans (Nat.le_add_left _ _) (hserved.room inf hinf), ?_⟩
        rw [← hs', ← hsize]
        exact load_burn (hsize ▸ hempty)
      · have hnil : efuseWriteUsr env keydata inf.offset { s with tick } = (-1, { s with tick }) := by
          rw [efuseWriteUsr, if_pos (by omega)]
          rfl
        rw [bind_run hnil] at hwrite
        exact (not_error (e := 204) hwrite (by decide)).elim

theorem macFormat_error {err : Int} (h : macFormat keydata = some err) : err ≠ 0 := by
  obtain ⟨index, _, hround⟩ := exists_of_findSome?_eq_some h
  split at hround
  · cases hround
    decide
  split at hround
  · cases hround
    decide
  · cases hround

/-- A successful write of an address: it is a text with digits, and stored as text or in six
bytes. -/
theorem burnMac_run (hserved : Served env cfg keyname ops)
    (hwrite : burnKeyInTypeMac env cfg keyname keydata s = (0, s')) :
    keydata.length = usrMacKeyLen ∧ macFormat keydata = none ∧
      if ops = .efuse ∧ keymanageEfuseSize cfg keyname ≠ usrMacKeyLen then
        keyUnifyWrite env cfg keyname (macBytes keydata) s = (0, s')
      else keyUnifyWrite env cfg keyname keydata s = (0, s') := by
  obtain ⟨hlength, hwrite⟩ := of_if_error hwrite (by decide)
  cases hformat : macFormat keydata with
  | some err =>
    rw [hformat] at hwrite
    exact (not_error (e := err) hwrite (macFormat_error hformat)).elim
  | none =>
    rw [hformat] at hwrite
    refine ⟨Classical.not_not.mp hlength, rfl, ?_⟩
    cases hdev : keymanageDtsGetKeyDevice cfg keyname with
    | none =>
      rw [hdev] at hwrite
      exact (not_error (e := 119) hwrite (by decide)).elim
    | some dev =>
      rw [hdev] at hwrite
      have hops := hserved.device
      rw [getKmOpsByName, hdev] at hops
      cases dev with
      | secureKey | noramlKey =>
        cases hops
        exact hwrite
      | efuseNormal =>
        have hefuse : ops = .efuse := (Option.some.inj hops).symm
        have hquery : keyUnifyQuerySize cfg keyname s = ((0, keymanageEfuseSize cfg keyname), s) := by
          rw [keyUnifyQuerySize, getKmOpsByName, hdev]
          show (if keymanageEfuseQueryCanRead keyname = 0 then pure (345, 0)
            else pure (0, keymanageEfuseSize cfg keyname) : KeyM (Int × Nat)) s = _
          rw [keymanageEfuseQueryCanRead, if_neg (hserved.name hefuse), if_neg (by decide)]
          rfl
        dsimp only at hwrite
        rw [bind_run hquery] at hwrite
        have hwrite := (of_if_error (of_if_error hwrite (by decide)).2 (by decide)).2
        by_cases htext : keymanageEfuseSize cfg keyname = usrMacKeyLen
        · rw [if_pos htext] at hwrite
          rw [if_neg fun h => h.2 htext]
          exact hwrite
        · rw [if_neg htext] at hwrite
          rw [if_pos ⟨hefuse, htext⟩]
          exact hwrite

theorem macFormat_digit (h : macFormat keydata = none) : isxdigit (keydata.getD 0 0) = true := by
  rw [macFormat, findSome?_eq_none_iff] at h
  have hfirst := h 0 mem_cons_self
  by_contra hdigit
  rw [Bool.not_eq_true] at hdigit
  rw [if_pos (by rw [hdigit]; rfl)] at hfirst
  exact nomatch hfirst

theorem macFormat_nonzero (h : macFormat keydata = none) (hlength : keydata.length = usrMacKeyLen) : ∃ b ∈ keydata, b ≠ 0 := by
  have hdigit := macFormat_digit h
  cases keydata with
  | nil => exact nomatch hlength
  | cons first rest =>
    refine ⟨first, .head _, ?_⟩
    rintro rfl
    replace hdigit : isxdigit 0 = true := hdigit
    exact nomatch hdigit

/-! ### hdcp2 -/

theorem generalDataChange_twice (b : UInt8) : generalDataChange (generalDataChange b) = b := by
  have hall : ∀ n : Fin 256, generalDataChange (generalDataChange (UInt8.ofFin n)) = UInt8.ofFin n := by decide +kernel
  exact hall b.toFin

/-- The encrypted storage after the three parts of a key are written. -/
def hdcp2Keys (keyname : String) (keydata : List UInt8) (keys : String → Option AmlKey) (name : String) : Option AmlKey :=
  let decryptBuf := (keydata.take hdcp2RxKeyTotalLen).map generalDataChange
  if name = keyname then some ⟨decryptBuf.take hdcp2VersionLen, 0⟩
  else if name = hdcp2RxKeyName then some ⟨decryptBuf.drop (hdcp2VersionLen + hdcp2RxLc128Len), 0⟩
  else if name = hdcp2RxKeyLc128Name then some ⟨(decryptBuf.drop hdcp2VersionLen).take hdcp2RxLc128Len, 0⟩
  else keys name

theorem burnHdcp2_run (hwrite : burnKeyInTypeHdcp2 keyname keydata s = (0, s')) :
    hdcp2RxKeyTotalLen ≤ keydata.length ∧ s' = { s with keys := hdcp2Keys keyname keydata s.keys } := by
  obtain ⟨hshort, hwrite⟩ := of_if_error hwrite (by decide)
  replace hwrite := (of_if_error hwrite (by decide)).2
  refine ⟨by omega, ?_⟩
  have htotal : hdcp2RxKeyTotalLen = 902 := rfl
  have hlc : hdcp2RxLc128Len = 36 := rfl
  have hver : hdcp2VersionLen = 4 := rfl
  have hkey : hdcp2RxKeyLen = 862 := rfl
  rw [bind_run (amlkeyWrite_run _ _ _ _), if_neg (by simp; omega), bind_run (amlkeyWrite_run _ _ _ _), if_neg (by simp; omega),
    bind_run (amlkeyWrite_run _ _ _ _), if_neg (by simp; omega)] at hwrite
  exact (congrArg Prod.snd hwrite).symm

theorem hdcp2_parts (d : List UInt8) : d.take hdcp2VersionLen ++ (d.drop hdcp2VersionLen).take hdcp2RxLc128Len ++
    d.drop (hdcp2VersionLen + hdcp2RxLc128Len) = d := by
  rw [append_assoc, ← drop_drop, take_append_drop, take_append_drop]

/-- The parts of a key are read back unless its name is that of one of the other parts. -/
theorem readHdcp2_run (hlength : hdcp2RxKeyTotalLen ≤ keydata.length) (hkeys : s.keys = hdcp2Keys keyname keydata s'.keys)
    (buffer : Memory) : ∃ ret after, readKeyInTypeHdcp2 keyname buffer hdcp2RxKeyTotalLen s = ((ret, after), s) ∧
      (ret = 0 ↔ OwnName keyname) ∧ (OwnName keyname → after = store buffer 0 (keydata.take hdcp2RxKeyTotalLen)) := by
  obtain ⟨d, hd⟩ : ∃ d, d = (keydata.take hdcp2RxKeyTotalLen).map generalDataChange := ⟨_, rfl⟩
  have hback : d.map generalDataChange = keydata.take hdcp2RxKeyTotalLen := by
    rw [hd, map_map]
    exact (map_congr_left fun b _ => generalDataChange_twice b).trans (map_id _)
  have hdlen : d.length = 902 := by
    rw [hd, length_map, length_take]
    exact Nat.min_eq_left hlength
  have hown : s.keys keyname = some ⟨d.take hdcp2VersionLen, 0⟩ := by
    rw [hkeys, hdcp2Keys, if_pos rfl, hd]
  have hshort : ∀ len, ((d.take hdcp2VersionLen).take len).length = min len 4 := by
    intro len
    rw [length_take, length_take, hdlen]
    rfl
  have hversion : ((d.take hdcp2VersionLen).take hdcp2VersionLen) = d.take hdcp2VersionLen := by
    rw [take_take, Nat.min_self]
  rw [readKeyInTypeHdcp2, if_neg (Nat.lt_irrefl _), bind_run (amlkeyRead_run hown _), if_neg (by rw [hshort]; decide), hversion]
  by_cases hkeyName : keyname = hdcp2RxKeyName
  · -- the version took the place of the key
    have hread := amlkeyRead_run (hkeyName ▸ hown) hdcp2RxKeyLen
    rw [bind_run hread, if_pos (by rw [hshort]; decide)]
    exact ⟨367, buffer, rfl, ⟨fun h => absurd h (by decide), fun h => absurd hkeyName h.2⟩, fun h => absurd hkeyName h.2⟩
  have hkey : s.keys hdcp2RxKeyName = some ⟨d.drop (hdcp2VersionLen + hdcp2RxLc128Len), 0⟩ := by
    rw [hkeys, hdcp2Keys, if_neg (Ne.symm hkeyName), if_pos rfl, hd]
  have hkeyVal : (d.drop (hdcp2VersionLen + hdcp2RxLc128Len)).length = hdcp2RxKeyLen := by
    rw [length_drop, hdlen]
    rfl
  rw [bind_run (amlkeyRead_run hkey _), take_of_length_le (Nat.le_of_eq hkeyVal), if_neg fun h => h hkeyVal]
  by_cases hlcName : keyname = hdcp2RxKeyLc128Name
  · have hread := amlkeyRead_run (hlcName ▸ hown) hdcp2RxLc128Len
    rw [bind_run hread, if_pos (by rw [hshort]; decide)]
    exact ⟨375, buffer, rfl, ⟨fun h => absurd h (by decide), fun h => absurd hlcName h.1⟩, fun h => absurd hlcName h.1⟩
  have hlc : s.keys hdcp2RxKeyLc128Name = some ⟨(d.drop hdcp2VersionLen).take hdcp2RxLc128Len, 0⟩ := by
    rw [hkeys, hdcp2Keys, if_neg (Ne.symm hlcName), if_neg (by decide), if_pos rfl, hd]
  have hlcVal : ((d.drop hdcp2VersionLen).take hdcp2RxLc128Len).length = hdcp2RxLc128Len := by
    rw [length_take, length_drop, hdlen]
    rfl
  rw [bind_run (amlkeyRead_run hlc _), take_of_length_le (Nat.le_of_eq hlcVal), if_neg fun h => h hlcVal, hdcp2_parts,
    hback]
  exact ⟨0, _, rfl, ⟨fun _ => ⟨hlcName, hkeyName⟩, fun _ => rfl⟩, fun _ => rfl⟩

theorem hdcp2_present (hkeys : s'.keys = hdcp2Keys keyname keydata s.keys) (hfuses : s'.fuses = s.fuses) :
    Present cfg keyname s' ops ↔ (ops = .efuse → ¬ OtpKeys.Empty cfg keyname s) := by
  cases ops with
  | secukey =>
    refine ⟨fun _ heq => absurd heq (by decide), fun _ => ?_⟩
    show (s'.keys keyname).isSome
    rw [hkeys, hdcp2Keys, if_pos rfl]
    rfl
  | efuse =>
    show ¬ (∀ b ∈ storedBytes cfg keyname s'.fuses, b = 0) ↔ _
    rw [hfuses]
    exact ⟨fun h _ => h, fun h => h rfl⟩

theorem readsBack_hdcp2 (hserved : Served env cfg keyname ops)
    (hfmt : kmGetUserKeyFormat cfg keyname = some .hdcp2) (hlength : hdcp2RxKeyTotalLen ≤ keydata.length)
    (hkeys : s'.keys = hdcp2Keys keyname keydata s.keys) :
    ReadsBack env cfg keyname .hdcp2 keydata s' ↔ Present cfg keyname s' ops ∧ OwnName keyname := by
  obtain ⟨tick, hiff⟩ := readsBack_iff hserved hfmt keydata fun _ => rfl
  have htaken : (keydata.take hdcp2RxKeyTotalLen).length = hdcp2RxKeyTotalLen := by
    rw [length_take, Nat.min_eq_left hlength]
  refine hiff.trans (and_congr_right fun _ => ⟨fun h => ?_, fun hown buffer => ?_⟩)
  · obtain ⟨after, last, hformat, _⟩ := h zeroed
    obtain ⟨ret, after', hread, hret, _⟩ := @readHdcp2_run keyname keydata { s' with tick } s hlength hkeys zeroed
    exact hret.mp (congrArg (fun r => r.1.1) (hread.symm.trans hformat))
  · obtain ⟨ret, after, hread, hret, hafter⟩ := @readHdcp2_run keyname keydata { s' with tick } s hlength hkeys buffer
    rw [hret.mpr hown, hafter hown] at hread
    refine ⟨_, _, hread, fun a ha => store_outside (.inr (by omega)), ?_⟩
    have hload := load_store buffer 0 (keydata.take hdcp2RxKeyTotalLen)
    rw [htaken] at hload
    exact hload

end Writes

/-! ## Keys read back -/

section Main
variable {env : KeyEnv} {cfg : KeyConfig} {keyname : String} {keydata : List UInt8} {s s' : KeyState}

theorem nonSecure_ops (h : NonSecure cfg keyname) : ∃ ops, getKmOpsByName cfg keyname = some ops ∧
    (ops = .efuse → keyname ≠ secureBootKeyName) ∧ (ops = .efuse ↔ keymanageDtsGetKeyDevice cfg keyname = some .efuseNormal) ∧
    keymanageDtsGetKeyDevice cfg keyname ≠ some .secureKey := by
  rcases h with hnormal | ⟨hefuse, hname⟩
  · refine ⟨.secukey, by rw [getKmOpsByName, hnormal], fun heq => absurd heq (by decide), ?_, ?_⟩
    all_goals
      rw [hnormal]
      decide
  · refine ⟨.efuse, by rw [getKmOpsByName, hefuse], fun _ => hname, ⟨fun _ => hefuse, fun _ => rfl⟩, ?_⟩
    rw [hefuse]
    decide

theorem configured_fits {items : List KeyItem} {infos : List EfusekeyInfo} {maxSize : Nat} (hmax : maxSize ≤ efuseBytes)
    (hcfg : cfg = ⟨items, efuseUsrApiInitDtb maxSize infos⟩) {inf : EfusekeyInfo}
    (hinf : getCfgKeyInfByname cfg keyname = some inf) : inf.offset + inf.size ≤ efuseBytes := by
  have hmem : inf ∈ cfg.efusekeys := mem_of_find?_eq_some hinf
  rw [hcfg] at hmem
  rw [efuseUsrApiInitDtb] at hmem
  split at hmem
  · next hall => exact Nat.le_trans (of_decide_eq_true (all_eq_true.mp hall inf hmem)) hmax
  · exact nomatch hmem

/-- A key that was written with success is read back with its size just when it is readable. -/
theorem burned_key_reads_back_iff {items : List KeyItem} {infos : List EfusekeyInfo} {maxSize : Nat} (henv : Succeeds env)
    (hmax : maxSize ≤ efuseBytes) (hcfg : cfg = ⟨items, efuseUsrApiInitDtb maxSize infos⟩) (hkey : NonSecure cfg keyname)
    (hwrite : keyManageWrite env cfg keyname keydata s = (0, s')) : ∃ fmt, kmGetUserKeyFormat cfg keyname = some fmt ∧
      (ReadsBack env cfg keyname fmt keydata s' ↔ Readable cfg keyname fmt keydata s) := by
  obtain ⟨ops, hops, hname, hefuse, hsecure⟩ := nonSecure_ops hkey
  have hserved : Served env cfg keyname ops := ⟨henv, fun _ hinf => configured_fits hmax hcfg hinf, hname, hops⟩
  have hconfigured : keyUnifyQueryKeyHasConfigure cfg keyname ≠ 0 := by
    rw [keyUnifyQueryKeyHasConfigure, hops]
    exact Int.one_ne_zero
  rw [keyManageWrite, if_neg hconfigured] at hwrite
  cases hfmt : kmGetUserKeyFormat cfg keyname with
  | none =>
    rw [hfmt] at hwrite
    exact (not_error (e := 416) hwrite (by decide)).elim
  | some fmt =>
    rw [hfmt] at hwrite
    refine ⟨fmt, rfl, ?_⟩
    cases fmt with
    | raw =>
      have hstores := unifyWrite_stores hserved hsecure hwrite
      rw [readsBack_plain hserved hfmt (.inr rfl) hstores rfl, stores_present hstores, hefuse]
      exact .rfl
    | sha1 =>
      have hstores := unifyWrite_stores hserved hsecure (of_if_error (of_if_error hwrite (by decide)).2 (by decide)).2
      rw [readsBack_plain hserved hfmt (.inl rfl) hstores rfl, stores_present hstores, hefuse]
      exact .rfl
    | hdcp2 =>
      obtain ⟨hlength, hs'⟩ := burnHdcp2_run hwrite
      have hkeys : s'.keys = hdcp2Keys keyname keydata s.keys := by rw [hs']
      have hfuses : s'.fuses = s.fuses := by rw [hs']
      rw [readsBack_hdcp2 hserved hfmt hlength hkeys, and_comm, hdcp2_present hkeys hfuses, hefuse]
      exact .rfl
    | mac =>
      obtain ⟨hlength, hformat, hrun⟩ := burnMac_run hserved hwrite
      by_cases hbinary : ops = .efuse ∧ keymanageEfuseSize cfg keyname ≠ usrMacKeyLen
      · rw [if_pos hbinary] at hrun
        have hstores := unifyWrite_stores hserved hsecure hrun
        refine ⟨fun h => absurd h (not_readsBack_binary hserved hfmt hstores rfl keydata), fun h => ?_⟩
        exact absurd (h (hefuse.mp hbinary.1)) hbinary.2
      · rw [if_neg hbinary] at hrun
        have hstores := unifyWrite_stores hserved hsecure hrun
        rw [readsBack_text hserved hfmt hstores hlength, stores_present hstores]
        refine ⟨fun _ hdev => Classical.not_not.mp fun hne => hbinary ⟨hefuse.mpr hdev, hne⟩, fun _ _ => ?_⟩
        exact macFormat_nonzero hformat hlength

end Main

/-- A key of four bytes is read back. -/
theorem usid_reads_back : ReadsBack (monitor none) oneKey "usid" .raw [1, 2, 3, 4]
    (keyManageWrite (monitor none) oneKey "usid" [1, 2, 3, 4] blank).2 := by
  have hmonitor : Succeeds (monitor none) := fun _ => ⟨rfl, Nat.le_refl _, Nat.le_refl _⟩
  have hcfg : oneKey = ⟨oneKey.items, efuseUsrApiInitDtb efuseBytes oneKey.efusekeys⟩ := rfl
  have hkey : NonSecure oneKey "usid" := .inr ⟨by decide +kernel, by decide +kernel⟩
  have hwrite : keyManageWrite (monitor none) oneKey "usid" [1, 2, 3, 4] blank =
      (0, (keyManageWrite (monitor none) oneKey "usid" [1, 2, 3, 4] blank).2) := Prod.ext (by decide +kernel) rfl
  obtain ⟨fmt, hfmt, hiff⟩ := burned_key_reads_back_iff hmonitor (Nat.le_refl _) hcfg hkey hwrite
  have hraw : kmGetUserKeyFormat oneKey "usid" = some .raw := by decide +kernel
  obtain rfl := Option.some.inj (hraw.symm.trans hfmt)
  exact hiff.mpr fun _ => ⟨1, by decide, by decide⟩

/-- An address with room for six bytes. -/
def macKey : KeyConfig := ⟨[⟨"mac", "mac", "", .efuseNormal⟩], [⟨"mac", 0, 6⟩]⟩

/-- 00:11:22:33:44:55 -/
def address : List UInt8 := [48, 48, 58, 49, 49, 58, 50, 50, 58, 51, 51, 58, 52, 52, 58, 53, 53]

/-- The address is written, and its read stores a colon behind the end of the buffer. -/
theorem binary_address_overflows : (keyManageWrite (monitor none) macKey "mac" address blank).1 = 0 ∧
    ¬ ReadsBack (monitor none) macKey "mac" .mac address (keyManageWrite (monitor none) macKey "mac" address blank).2 := by
  refine ⟨by decide +kernel, fun h => ?_⟩
  obtain ⟨size, s1, after, s2, hquery, hread, houtside, _⟩ := h zeroed
  have hsize : (keyManageQuerySize (monitor none) macKey "mac" (keyManageWrite (monitor none) macKey "mac" address blank).2).1.2 =
      size := congrArg (fun r => r.1.2) hquery
  have hs1 : (keyManageQuerySize (monitor none) macKey "mac" (keyManageWrite (monitor none) macKey "mac" address blank).2).2 =
      s1 := congrArg Prod.snd hquery
  have hafter : (keyManageRead (monitor none) macKey "mac" zeroed size s1).1.2 = after := congrArg (fun r => r.1.2) hread
  subst hsize hs1 hafter
  exact absurd (houtside usrMacKeyLen (by decide +kernel)) (by decide +kernel)

end AmlogicV901d.Guarantees.BurnedKeys
