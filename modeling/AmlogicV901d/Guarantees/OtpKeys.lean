import AmlogicV901d.Lib.StateTriple
import AmlogicV901d.Source.KeyManage

/-!
# Keys in fuses are programmed once

Sequences of writes to keys, with the secure monitor and the allocator free to fail at every
call. A write command is given only for an empty key as long as the existence check of a key
that is not empty can read it.
-/
namespace AmlogicV901d.Guarantees.OtpKeys
open Lib.ByteMemory Lib.StateTriple Source.KeyManage List

variable {env : KeyEnv} {cfg : KeyConfig}

/-! ## Calls -/

inductive KeyCall
  | unifyWrite (keyname : String) (keydata : List UInt8)
  | manageWrite (keyname : String) (keydata : List UInt8)
  deriving Repr

def KeyCall.keyname : KeyCall → String
  | .unifyWrite keyname _ => keyname
  | .manageWrite keyname _ => keyname

def KeyCall.exec (env : KeyEnv) (cfg : KeyConfig) (call : KeyCall) (s : KeyState) : KeyState :=
  match call with
  | .unifyWrite keyname keydata => (keyUnifyWrite env cfg keyname keydata s).2
  | .manageWrite keyname keydata => (keyManageWrite env cfg keyname keydata s).2

def storedBytes (cfg : KeyConfig) (keyname : String) (fuses : Memory) : List UInt8 :=
  match getCfgKeyInfByname cfg keyname with
  | none => []
  | some inf => load fuses inf.offset inf.size

def Empty (cfg : KeyConfig) (keyname : String) (s : KeyState) : Prop := ∀ b ∈ storedBytes cfg keyname s.fuses, b = 0

instance (cfg : KeyConfig) (keyname : String) (s : KeyState) : Decidable (Empty cfg keyname s) :=
  inferInstanceAs (Decidable (∀ b ∈ storedBytes cfg keyname s.fuses, b = 0))

/-- No call gives a write command for a key that is not empty. -/
def NeverTwice (env : KeyEnv) (cfg : KeyConfig) : List KeyCall → KeyState → Prop
  | [], _ => True
  | call :: calls, s =>
    ((call.exec env cfg s).burns ≠ s.burns → Empty cfg call.keyname s) ∧ NeverTwice env cfg calls (call.exec env cfg s)

/-- The existence check of the next call gets its buffer and all bytes of the key. -/
def CheckReads (env : KeyEnv) (cfg : KeyConfig) (keyname : String) (s : KeyState) : Prop :=
  env.allocated s.tick = true ∧ keymanageEfuseSize cfg keyname ≤ env.delivered (s.tick + 1)

def Checked (env : KeyEnv) (cfg : KeyConfig) : List KeyCall → KeyState → Prop
  | [], _ => True
  | call :: calls, s =>
    (Empty cfg call.keyname s ∨ CheckReads env cfg call.keyname s) ∧ Checked env cfg calls (call.exec env cfg s)

/-! ## The existence check -/

section Reads
variable {keyname : String} {inf : EfusekeyInfo} {s : KeyState}

section
variable (hinf : getCfgKeyInfByname cfg keyname = some inf)
include hinf

theorem efuseRead_run {bytes : List UInt8}
    (hbytes : load s.fuses inf.offset (min (env.delivered s.tick) inf.size) = bytes) :
    keymanageEfuseRead env cfg keyname inf.size s =
      (readKeyResult inf.size (if bytes = [] then -1 else bytes.length) (bytes ++ List.replicate (inf.size - bytes.length) 0),
        { s with tick := s.tick + 1 }) := by
  have hsize : keymanageEfuseSize cfg keyname = inf.size := by rw [keymanageEfuseSize, hinf]
  have hread : keymanageEfuseRead env cfg keyname inf.size = (efuseReadUsr env inf.size inf.offset >>= fun r =>
      pure (readKeyResult inf.size r.1 r.2) : KeyM (Int × List UInt8)) := by
    simp only [keymanageEfuseRead, hsize, Nat.lt_irrefl, gt_iff_lt, if_false, efuseUsrApiReadKey, hinf, false_and]
  rw [hread, ← hbytes]
  rfl

theorem efuseRead_full (hpos : 0 < inf.size) (hfull : inf.size ≤ env.delivered s.tick) :
    keymanageEfuseRead env cfg keyname inf.size s = ((0, load s.fuses inf.offset inf.size), { s with tick := s.tick + 1 }) := by
  have hmin : min (env.delivered s.tick) inf.size = inf.size := Nat.min_eq_right hfull
  have hne : load s.fuses inf.offset inf.size ≠ [] := by
    intro hnil
    have hlength := load_length s.fuses inf.offset inf.size
    rw [hnil] at hlength
    exact absurd hlength (Nat.ne_of_lt hpos)
  rw [efuseRead_run hinf (congrArg _ hmin), if_neg hne, load_length, Nat.sub_self, replicate_zero, append_nil,
    readKeyResult, if_neg (by omega), if_neg fun h => h rfl]

theorem efuseRead_short (hshort : inf.size = 0 ∨ env.delivered s.tick < inf.size) :
    ∃ ret data, ret ≠ 0 ∧ keymanageEfuseRead env cfg keyname inf.size s = ((ret, data), { s with tick := s.tick + 1 }) := by
  rw [efuseRead_run hinf rfl]
  by_cases hbytes : load s.fuses inf.offset (min (env.delivered s.tick) inf.size) = []
  · rw [if_pos hbytes, readKeyResult, if_pos rfl]
    exact ⟨234, _, by decide, rfl⟩
  have hlt : min (env.delivered s.tick) inf.size ≠ inf.size := by
    intro heq
    rcases hshort with hzero | hlt
    · rw [hzero, Nat.min_zero] at hbytes
      exact hbytes rfl
    · omega
  rw [if_neg hbytes, load_length, readKeyResult, if_neg (by omega), if_pos (by omega)]
  exact ⟨239, _, by decide, rfl⟩

end

theorem efuseRead_none (hinf : getCfgKeyInfByname cfg keyname = none) :
    keymanageEfuseRead env cfg keyname (keymanageEfuseSize cfg keyname) s = ((220, []), s) := by
  simp only [keymanageEfuseRead, keymanageEfuseSize, hinf, Nat.lt_irrefl, gt_iff_lt, if_false, efuseUsrApiReadKey]
  rfl

theorem efuseExist_eq (hname : keyname ≠ secureBootKeyName) (s : KeyState) : keymanageEfuseExist env cfg keyname s =
      if env.allocated s.tick then
        let r := keymanageEfuseRead env cfg keyname (keymanageEfuseSize cfg keyname) { s with tick := s.tick + 1 }
        (if r.1.1 ≠ 0 then 0 else if r.1.2.all (· == 0) then 0 else 1, r.2)
      else (0, { s with tick := s.tick + 1 }) := by
  have hnext : nextTick s = (s.tick, { s with tick := s.tick + 1 }) := rfl
  rw [keymanageEfuseExist, if_neg hname]
  rw [bind_run hnext]
  cases env.allocated s.tick <;> rfl

/-- The check finds the key if it can read it and it is not empty. -/
theorem efuseExist_run (hname : keyname ≠ secureBootKeyName) (s : KeyState) : ∃ exist tick,
    keymanageEfuseExist env cfg keyname s = (exist, { s with tick }) ∧
      (exist ≠ 0 ↔ CheckReads env cfg keyname s ∧ ¬ Empty cfg keyname s) := by
  rw [efuseExist_eq hname]
  cases halloc : env.allocated s.tick with
  | false => exact ⟨0, _, rfl, fun h => absurd rfl h, fun h => nomatch halloc.symm.trans h.1.1⟩
  | true =>
    cases hinf : getCfgKeyInfByname cfg keyname with
    | none =>
      rw [efuseRead_none hinf]
      refine ⟨0, _, rfl, fun h => absurd rfl h, fun h => absurd (fun b hb => ?_) h.2⟩
      rw [storedBytes, hinf] at hb
      exact nomatch hb
    | some inf =>
      have hsize : keymanageEfuseSize cfg keyname = inf.size := by rw [keymanageEfuseSize, hinf]
      have hstored : storedBytes cfg keyname s.fuses = load s.fuses inf.offset inf.size := by rw [storedBytes, hinf]
      rw [hsize]
      by_cases hfull : 0 < inf.size ∧ inf.size ≤ env.delivered (s.tick + 1)
      · rw [efuseRead_full (s := { s with tick := s.tick + 1 }) hinf hfull.1 hfull.2]
        refine ⟨_, _, rfl, ?_⟩
        have hreads : CheckReads env cfg keyname s := ⟨halloc, hsize ▸ hfull.2⟩
        rw [if_neg fun h => h rfl, ← hstored]
        by_cases hall : (storedBytes cfg keyname s.fuses).all (· == 0) = true
        · rw [if_pos hall]
          refine ⟨fun h => absurd rfl h, fun h => absurd (fun b hb => ?_) h.2⟩
          exact eq_of_beq (all_eq_true.mp hall b hb)
        rw [if_neg hall]
        refine ⟨fun _ => ⟨hreads, fun hempty => hall (all_eq_true.mpr fun b hb => ?_)⟩, fun _ => by decide⟩
        rw [hempty b hb]
        rfl
      · obtain ⟨ret, data, hret, hread⟩ := @efuseRead_short env cfg keyname inf { s with tick := s.tick + 1 } hinf
          (by show _ ∨ env.delivered (s.tick + 1) < _; omega)
        rw [hread]
        refine ⟨_, _, rfl, ?_⟩
        rw [if_pos hret]
        refine ⟨fun h => absurd rfl h, fun h => absurd (fun b hb => ?_) h.2⟩
        have hzero : inf.size = 0 := by
          have hle := h.1.2
          omega
        rw [hstored, hzero] at hb
        exact nomatch hb

end Reads

/-! ## Writes -/

section Writes
variable {keyname : String} {s : KeyState}

variable (keydata : List UInt8)

theorem secukeyWrite_burns : (keymanageSecukeyWrite env cfg keyname keydata s).2.burns = s.burns := by
  have hkeeps : Keeps (fun x => x.burns = s.burns) (keymanageSecukeyWrite env cfg keyname keydata) := by
    refine .bind (.bind (.modify fun _ h => h) fun _ => .pure _) fun writenLen => ?_
    refine .ite (.pure _) (.ite ?_ (.pure _))
    exact .bind (fun _ h => h) fun tick => .ite (.pure _) (.pure _)
  exact hkeeps s rfl

theorem unifyWrite_efuse {keydata : List UInt8} {exist : Int} {s' : KeyState} (hops : getKmOpsByName cfg keyname = some .efuse)
    (hexist : keymanageEfuseExist env cfg keyname s = (exist, s')) :
    keyUnifyWrite env cfg keyname keydata s = if exist ≠ 0 then (280, s') else keymanageEfuseWrite env cfg keyname keydata s' := by
  rw [keyUnifyWrite, hops]
  show (keymanageEfuseExist env cfg keyname >>= _) s = _
  rw [bind_run hexist]
  dsimp only
  by_cases hfound : exist ≠ 0
  · rw [if_pos hfound, if_pos hfound]
    rfl
  · rw [if_neg hfound, if_neg hfound]
    rfl

/-- A write command is given only after the check has not found the key. -/
theorem unifyWrite_empty {keydata : List UInt8} (hburns : (keyUnifyWrite env cfg keyname keydata s).2.burns ≠ s.burns)
    (hcheck : Empty cfg keyname s ∨ CheckReads env cfg keyname s) : Empty cfg keyname s := by
  cases hops : getKmOpsByName cfg keyname with
  | none =>
    rw [keyUnifyWrite, hops] at hburns
    exact absurd rfl hburns
  | some ops =>
    cases ops with
    | secukey =>
      rw [keyUnifyWrite, hops] at hburns
      exact absurd (secukeyWrite_burns keydata) hburns
    | efuse =>
      by_cases hname : keyname = secureBootKeyName
      · have hexist : keymanageEfuseExist env cfg keyname s = (env.bootVerify, s) := by
          rw [keymanageEfuseExist, if_pos hname]
          rfl
        have hwrite : keymanageEfuseWrite env cfg keyname keydata s = (env.runCommand s.tick, { s with tick := s.tick + 1 }) := by
          rw [keymanageEfuseWrite, if_pos hname]
          rfl
        rw [unifyWrite_efuse hops hexist, hwrite] at hburns
        split at hburns <;> exact absurd rfl hburns
      · obtain ⟨exist, tick, hexist, hfound⟩ := efuseExist_run hname s
        rw [unifyWrite_efuse hops hexist] at hburns
        by_cases hsome : exist ≠ 0
        · rw [if_pos hsome] at hburns
          exact absurd rfl hburns
        · rcases hcheck with hempty | hreads
          · exact hempty
          · exact Classical.not_not.mp fun hnot => hsome (hfound.mpr ⟨hreads, hnot⟩)

theorem querySize_state (keyname : String) (s : KeyState) : (keyUnifyQuerySize cfg keyname s).2 = s := by
  have hkeeps : Keeps (fun x => x = s) (keyUnifyQuerySize cfg keyname) := by
    rw [keyUnifyQuerySize]
    cases getKmOpsByName cfg keyname with
    | none => exact .pure _
    | some ops =>
      have hcanRead : Keeps (fun x => x = s) (ops.pKeyCanRead keyname) := by
        cases ops with
        | secukey => exact .bind (.bind .get fun _ => .pure _) fun _ => .pure _
        | efuse => exact .pure _
      have hsize : Keeps (fun x => x = s) (ops.pGetSize cfg keyname) := by
        cases ops with
        | secukey => exact .bind .get fun _ => .pure _
        | efuse => exact .pure _
      exact .bind hcanRead fun _ => .ite (.pure _) (.bind hsize fun _ => .pure _)
  exact hkeeps s rfl

/-- A write through the key formats gives no write command, or is a write to the device. -/
def WritesOnce (env : KeyEnv) (cfg : KeyConfig) (keyname : String) (s : KeyState) (x : KeyM Int) : Prop :=
  (x s).2.burns = s.burns ∨ ∃ data, x s = keyUnifyWrite env cfg keyname data s

theorem burnMac_writes : WritesOnce env cfg keyname s (burnKeyInTypeMac env cfg keyname keydata) := by
  rw [burnKeyInTypeMac]
  split
  · exact .inl rfl
  split
  · exact .inl rfl
  · exact .inl rfl
  · cases hquery : keyUnifyQuerySize cfg keyname s with
    | mk r s' =>
      have hsame : s' = s := (congrArg Prod.snd hquery).symm.trans (querySize_state keyname s)
      subst hsame
      rw [WritesOnce, bind_run hquery]
      dsimp only
      split
      · exact .inl rfl
      split
      · exact .inl rfl
      · split <;> exact .inr ⟨_, rfl⟩
  · exact .inr ⟨_, rfl⟩

theorem burnSha1_writes : WritesOnce env cfg keyname s (burnKeyInTypeSha1 env cfg keyname keydata) := by
  rw [burnKeyInTypeSha1]
  split
  · exact .inl rfl
  · split
    · exact .inl rfl
    · exact .inr ⟨_, rfl⟩

theorem burnHdcp2_writes : WritesOnce env cfg keyname s (burnKeyInTypeHdcp2 keyname keydata) := by
  have hwrite : ∀ name buffer attr, Keeps (fun x : KeyState => x.burns = s.burns) (amlkeyWrite name buffer attr) :=
    fun name buffer attr => .bind (.modify fun _ h => h) fun _ => .pure _
  have hkeeps : Keeps (fun x => x.burns = s.burns) (burnKeyInTypeHdcp2 keyname keydata) := by
    refine .ite (.pure _) (.ite (.pure _) (.bind (hwrite _ _ _) fun _ => ?_))
    refine .ite (.pure _) (.bind (hwrite _ _ _) fun _ => .ite (.pure _) ?_)
    exact .bind (hwrite _ _ _) fun _ => .ite (.pure _) (.pure _)
  exact .inl (hkeeps s rfl)

theorem manageWrite_writes : WritesOnce env cfg keyname s (keyManageWrite env cfg keyname keydata) := by
  rw [keyManageWrite]
  split
  · exact .inl rfl
  split
  · exact .inl rfl
  · exact burnMac_writes keydata
  · exact burnSha1_writes keydata
  · exact burnHdcp2_writes keydata
  · exact .inr ⟨keydata, rfl⟩

theorem exec_empty {call : KeyCall} (hburns : (call.exec env cfg s).burns ≠ s.burns)
    (hcheck : Empty cfg call.keyname s ∨ CheckReads env cfg call.keyname s) : Empty cfg call.keyname s := by
  cases call with
  | unifyWrite keyname keydata => exact unifyWrite_empty hburns hcheck
  | manageWrite keyname keydata =>
    obtain hnone | ⟨data, hsame⟩ := @manageWrite_writes env cfg keyname s keydata
    · exact absurd hnone hburns
    · rw [KeyCall.exec, hsame] at hburns
      exact unifyWrite_empty hburns hcheck

end Writes

/-- As long as the check of every key that is not empty can read it, no key is programmed twice. -/
theorem otp_key_never_programmed_twice {calls : List KeyCall} {s : KeyState} (h : Checked env cfg calls s) :
    NeverTwice env cfg calls s := by
  induction calls generalizing s with
  | nil => trivial
  | cons call calls ih => exact ⟨fun hburns => exec_empty hburns h.1, ih h.2⟩

/-- One key of four fuse bytes. -/
def oneKey : KeyConfig := ⟨[⟨"usid", "raw", "", .efuseNormal⟩], [⟨"usid", 0, 4⟩]⟩

/-- The secure monitor delivers and burns what it is asked for, except for one read. -/
def monitor (failing : Option Nat) : KeyEnv where
  delivered tick := if some tick = failing then 0 else efuseBytes
  burnt _ := efuseBytes
  allocated _ := true
  hashOk _ := true
  runCommand _ := 0
  bootVerify := 0
  sha1Csum _ := List.replicate 20 0

def blank : KeyState := ⟨zeroed, fun _ => none, 0, 0⟩

/-- The second write of a key that was programmed is refused. -/
theorem usid_programmed_once : NeverTwice (monitor none) oneKey
    [.unifyWrite "usid" [1, 2, 3, 4], .manageWrite "usid" [8, 8, 8, 8]] blank :=
  otp_key_never_programmed_twice ⟨.inl (by decide +kernel), .inr ⟨by decide +kernel, by decide +kernel⟩, trivial⟩

/-- The read of the second check fails, and the programmed key is burnt again. -/
theorem failed_read_programs_twice : ¬ NeverTwice (monitor (some 4)) oneKey
    [.unifyWrite "usid" [1, 2, 3, 4], .manageWrite "usid" [8, 8, 8, 8]] blank := fun h =>
  absurd (h.2.1 (by decide +kernel)) (by decide +kernel)

end AmlogicV901d.Guarantees.OtpKeys
