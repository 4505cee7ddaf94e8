import Mathlib.Data.List.Infix
import AmlogicV901d.Source.Btremoted

/-!
# What a voice client hears

Runs of the main loop of the daemon, read as sessions: the frames since a client was accepted,
and the bytes sent since then. The bytes are the frames without the trimmed start and without
the frames that found no room, as far as they have been sent, if no client is accepted over a
buffer that is in use.
-/
namespace AmlogicV901d.Guarantees.BtSessions
open Lib.ByteMemory Source.Btremoted List

variable {head t : Nat} {buf : Memory}

/-! ## Sessions -/

/-- The frames of a session, each with the position `tail` that it found. -/
structure Session where
  frames : List (List UInt8 × Nat)
  sent : List UInt8
  deriving DecidableEq, Repr

def Session.addFrame (bytes : List UInt8) (tail : Nat) (s : Session) : Session := { s with frames := s.frames ++ [(bytes, tail)] }

def Session.addSent (bytes : List UInt8) (s : Session) : Session := { s with sent := s.sent ++ bytes }

/-- The sessions of a trace, the last one first. -/
def sessions : List Event → List Session
  | [] => []
  | .accept _ :: trace => ⟨[], []⟩ :: sessions trace
  | .frame bytes tail :: trace => (sessions trace).modifyHead (Session.addFrame bytes tail)
  | .send _ bytes :: trace => (sessions trace).modifyHead (Session.addSent bytes)

/-- The frames that found room, one after the other. -/
def Session.stored (s : Session) : List UInt8 :=
  (s.frames.filter fun frame => frame.2 + frame.1.length ≤ bufferSize).flatMap (·.1)

/-- The client heard the start of what it should. -/
def Session.Ok (cfg : Config) (s : Session) : Prop := s.sent <+: s.stored.drop (trim cfg)

/-! ## Runs -/

section Conditions
variable {σ : Type} (cfg : Config) (codec : Codec σ)

/-- No descriptor that is open is given out. -/
def Fresh (p : Poll) (d : Daemon σ) : Prop :=
  (∀ fd, p.accept = some fd → fd ≠ cfg.server ∧ d.sco ≠ some fd) ∧
    ∀ fd, p.openSco = some fd → fd ≠ cfg.server ∧ p.accept ≠ some fd

/-- When a client is accepted the SCO socket is closed, or nothing was buffered since the
buffer was cleared. -/
def CleanAccept (p : Poll) (d : Daemon σ) : Prop :=
  let d := (pollSocket cfg codec p .sco .success d).2.2
  p.revents .server &&& pollIn ≠ 0 → p.accept ≠ none → d.sco = none ∨ d.head = trim cfg ∧ d.tail = 0

def RunClean : List Poll → Daemon σ → Prop
  | [], _ => True
  | p :: polls, d => Fresh cfg p d ∧ CleanAccept cfg codec p d ∧ RunClean polls (turn cfg codec p d)

end Conditions

/-! ## Sessions and the buffer -/

section Sessions
variable {cfg : Config} {s : Session} {bytes : List UInt8} {tail : Nat}

theorem stored_addFrame : (s.addFrame bytes tail).stored =
    if tail + bytes.length ≤ bufferSize then s.stored ++ bytes else s.stored := by
  rw [Session.stored, Session.addFrame, filter_append, flatMap_append]
  by_cases hroom : tail + bytes.length ≤ bufferSize <;> simp [hroom, Session.stored]

theorem ok_addFrame (h : s.Ok cfg) : (s.addFrame bytes tail).Ok cfg := by
  have hmore : s.stored <+: (s.addFrame bytes tail).stored := by
    rw [stored_addFrame]
    split
    · exact prefix_append _ _
    · exact prefix_refl _
  exact List.IsPrefix.trans h (List.IsPrefix.drop hmore _)

theorem load_drop (m : Memory) (p n k : Nat) : (load m p n).drop k = load m (p + k) (n - k) := by
  by_cases hk : k ≤ n
  · conv_lhs => rw [← Nat.add_sub_cancel' hk, load_add]
    rw [drop_left' (load_length m p k)]
  · rw [drop_eq_nil_of_le (by rw [load_length]; omega), Nat.sub_eq_zero_of_le (by omega)]
    rfl

/-- The session in terms of the buffer: what is not sent yet is behind `head`; at the start the
buffer has all of it. -/
inductive Linked (trim head tail : Nat) (buf : Memory) (s : Session) : Prop
  | trimming (hlt : tail < head) (hhead : head = trim) (hsent : s.sent = []) (hstored : load buf 0 tail = s.stored)
  | sending (hle : head ≤ tail) (htrim : trim ≤ s.stored.length) (hstored : s.stored.drop trim = s.sent ++ load buf head (tail - head))

theorem Linked.ok {tail : Nat} (h : Linked (trim cfg) head tail buf s) : s.Ok cfg := by
  cases h with
  | trimming _ _ hsent _ =>
    rw [Session.Ok, hsent]
    exact nil_prefix
  | sending _ _ hstored => exact ⟨_, hstored.symm⟩

theorem linked_cleared (t : Nat) (buf : Memory) : Linked t t 0 buf ⟨[], []⟩ := by
  by_cases ht : t = 0
  · rw [ht]
    exact .sending (Nat.le_refl _) (Nat.le_refl _) rfl
  · exact .trimming (Nat.pos_of_ne_zero ht) rfl rfl rfl

section
variable (h : Linked t head tail buf s)
include h

/-- A frame that finds room. -/
theorem Linked.append (hroom : tail + bytes.length ≤ bufferSize) :
    Linked t head (tail + bytes.length) (store buf tail bytes) (s.addFrame bytes tail) := by
  have hstored' := @stored_addFrame s bytes tail
  rw [if_pos hroom] at hstored'
  have hbehind : load (store buf tail bytes) tail bytes.length = bytes := load_store _ _ _
  have hbefore : ∀ p n, p + n ≤ tail → load (store buf tail bytes) p n = load buf p n := fun p n hle =>
    load_congr fun i hi => store_outside (.inl (by omega))
  cases h with
  | trimming hlt hhead hsent hstored =>
    have hall : load (store buf tail bytes) 0 (tail + bytes.length) = (s.addFrame bytes tail).stored := by
      rw [load_add, hbefore 0 tail (by omega), hstored, Nat.zero_add, hbehind, hstored']
    by_cases hmore : tail + bytes.length < head
    · exact .trimming hmore hhead hsent hall
    refine .sending (Nat.le_of_not_lt hmore) ?_ ?_
    · rw [← hall, load_length]
      omega
    · rw [← hall, load_drop, Nat.zero_add, ← hhead]
      show _ = s.sent ++ _
      rw [hsent, nil_append]
  | sending hle htrim hstored =>
    refine .sending (by omega) ?_ ?_
    · rw [hstored', length_append]
      omega
    · have hsplit : tail + bytes.length - head = (tail - head) + bytes.length := by omega
      rw [hstored', drop_append_of_le_length htrim, hstored, hsplit, load_add, hbefore head (tail - head) (by omega),
        Nat.add_sub_cancel' hle, hbehind, append_assoc]
      rfl

theorem Linked.full (hroom : ¬ tail + bytes.length ≤ bufferSize) : Linked t head tail buf (s.addFrame bytes tail) := by
  have hstored' := @stored_addFrame s bytes tail
  rw [if_neg hroom] at hstored'
  cases h with
  | trimming hlt hhead hsent hstored => exact .trimming hlt hhead hsent (hstored.trans hstored'.symm)
  | sending hle htrim hstored =>
    refine .sending hle (hstored' ▸ htrim) ?_
    rw [hstored', hstored]
    rfl

theorem Linked.send (hle : head ≤ tail) {n : Nat} (hn : n ≤ tail - head) :
    Linked t (head + n) tail buf (s.addSent (load buf head n)) := by
  cases h with
  | trimming hlt _ _ _ => exact absurd hlt (Nat.not_lt_of_le hle)
  | sending _ htrim hstored =>
    refine .sending (by omega) htrim ?_
    show s.stored.drop t = _
    have hsplit : tail - head = n + (tail - (head + n)) := by omega
    rw [hstored, hsplit, load_add, ← append_assoc]
    rfl

theorem Linked.reset (heq : head = tail) : Linked t 0 0 buf s := by
  cases h with
  | trimming hlt _ _ _ => omega
  | sending _ htrim hstored =>
    rw [heq, Nat.sub_self] at hstored
    exact .sending (Nat.le_refl _) htrim hstored

end

end Sessions

/-! ## The daemon -/

structure Inv {σ : Type} (cfg : Config) (d : Daemon σ) : Prop where
  ok : ∀ s ∈ sessions d.trace, s.Ok cfg
  linked : d.client ≠ none → ∃ s rest, sessions d.trace = s :: rest ∧ Linked (trim cfg) d.head d.tail d.mainBuf s

/-- The open descriptors differ. -/
structure Distinct {σ : Type} (cfg : Config) (d : Daemon σ) : Prop where
  sco : d.sco ≠ some cfg.server
  client : d.client ≠ some cfg.server
  apart : ∀ fd, d.sco = some fd → d.client ≠ some fd

section Steps
variable {σ : Type} {cfg : Config} {codec : Codec σ} {p : Poll} {d : Daemon σ}

theorem appendFrame_fds (frame : List UInt8) : (appendFrame d frame).sco = d.sco ∧ (appendFrame d frame).client = d.client := by
  rw [appendFrame]
  split <;> exact ⟨rfl, rfl⟩

theorem appendFrame_inv (h : Inv cfg d) (frame : List UInt8) : Inv cfg (appendFrame d frame) := by
  have htrace : (appendFrame d frame).trace = .frame frame d.tail :: d.trace := by
    rw [appendFrame]
    split <;> rfl
  refine ⟨fun s hs => ?_, fun hclient => ?_⟩
  · rw [htrace, sessions] at hs
    cases hsessions : sessions d.trace with
    | nil =>
      rw [hsessions] at hs
      exact nomatch hs
    | cons s' rest =>
      rw [hsessions] at hs
      rcases mem_cons.mp hs with rfl | hrest
      · exact ok_addFrame (h.ok s' (hsessions ▸ .head _))
      · exact h.ok s (hsessions ▸ .tail _ hrest)
  · rw [(appendFrame_fds frame).2] at hclient
    obtain ⟨s, rest, hsessions, hlinked⟩ := h.linked hclient
    refine ⟨s.addFrame frame d.tail, rest, ?_, ?_⟩
    · rw [htrace, sessions, hsessions]
      rfl
    · rw [appendFrame]
      by_cases hroom : d.tail + frame.length ≤ bufferSize
      · rw [if_pos hroom]
        exact hlinked.append hroom
      · rw [if_neg hroom]
        exact hlinked.full hroom

/-- The invariant with the descriptors of another state. -/
def Steady (cfg : Config) (d d' : Daemon σ) : Prop := Inv cfg d' ∧ d'.sco = d.sco ∧ d'.client = d.client

theorem appendFrames_inv (frames : List (List UInt8)) (h : Inv cfg d) : Steady cfg d (frames.foldl appendFrame d) := by
  induction frames generalizing d with
  | nil => exact ⟨h, rfl, rfl⟩
  | cons frame frames ih =>
    obtain ⟨hinv, hsco, hclient⟩ := ih (appendFrame_inv h frame)
    obtain ⟨hsco', hclient'⟩ := @appendFrame_fds σ d frame
    exact ⟨hinv, hsco.trans hsco', hclient.trans hclient'⟩

theorem handleScoPacket_inv (h : Inv cfg d) : Steady cfg d (handleScoPacket cfg codec p d).2 := by
  rw [handleScoPacket]
  cases p.recv with
  | none => exact ⟨h, rfl, rfl⟩
  | some packet =>
    dsimp only
    split
    · exact ⟨h, rfl, rfl⟩
    rw [handleMsbcData]
    generalize decodePacket cfg codec packet d.codec d.lastSeqNum = decoded
    exact @appendFrames_inv σ cfg { d with codec := decoded.codec, lastSeqNum := decoded.lastSeqNum } decoded.frames
      ⟨h.ok, h.linked⟩

theorem writeToClient_inv (h : Inv cfg d) : Steady cfg d (writeToClient p d).2 := by
  rw [writeToClient]
  cases hclient : d.client with
  | none => exact ⟨h, rfl, rfl⟩
  | some fd =>
    dsimp only
    by_cases hlt : d.tail < d.head
    · rw [if_pos hlt]
      exact ⟨h, rfl, rfl⟩
    rw [if_neg hlt]
    cases hsend : p.send with
    | none => exact ⟨⟨h.ok, fun _ => h.linked (hclient ▸ Option.some_ne_none _)⟩, rfl, hclient.symm⟩
    | some accepted =>
      dsimp only
      obtain ⟨s, rest, hsessions, hlinked⟩ := h.linked (by rw [hclient]; exact Option.some_ne_none _)
      have hle := Nat.min_le_right accepted (d.tail - d.head)
      generalize min accepted (d.tail - d.head) = n at hle ⊢
      have hsent := hlinked.send (Nat.le_of_not_lt hlt) hle
      have hsessions' : sessions (.send fd (load d.mainBuf d.head n) :: d.trace) = s.addSent (load d.mainBuf d.head n) :: rest := by
        rw [sessions, hsessions]
        rfl
      have hok : ∀ w ∈ sessions (.send fd (load d.mainBuf d.head n) :: d.trace), w.Ok cfg := by
        rw [hsessions']
        intro w hw
        rcases mem_cons.mp hw with rfl | hrest
        · exact hsent.ok
        · exact h.ok w (hsessions ▸ .tail _ hrest)
      split
      · next hge =>
        exact ⟨⟨hok, fun _ => ⟨_, rest, hsessions', hsent.reset (by omega)⟩⟩, rfl, hclient.symm⟩
      · exact ⟨⟨hok, fun _ => ⟨_, rest, hsessions', hsent⟩⟩, rfl, hclient.symm⟩

theorem inv_of_no_client (hok : ∀ s ∈ sessions d.trace, s.Ok cfg) (hclient : d.client = none) : Inv cfg d :=
  ⟨hok, fun h => absurd hclient h⟩

theorem Distinct.of_fds {d' : Daemon σ} (h : Distinct cfg d) (hsco : d'.sco = d.sco) (hclient : d'.client = d.client) : Distinct cfg d' := by
  refine ⟨?_, ?_, ?_⟩
  · rw [hsco]
    exact h.sco
  · rw [hclient]
    exact h.client
  · rw [hsco, hclient]
    exact h.apart

theorem ok_accept {fd : Nat} (hok : ∀ s ∈ sessions d.trace, s.Ok cfg) : ∀ s ∈ sessions (.accept fd :: d.trace), s.Ok cfg := by
  intro s hs
  rcases mem_cons.mp hs with rfl | hrest
  · exact nil_prefix
  · exact hok s hrest

/-- A new client starts a session over a cleared buffer, or the SCO socket failed. -/
theorem handleConnectionEvent_inv (h : Inv cfg d) (hd : Distinct cfg d)
    (haccept : ∀ fd, p.accept = some fd → fd ≠ cfg.server ∧ d.sco ≠ some fd)
    (hopen : ∀ fd, p.openSco = some fd → fd ≠ cfg.server ∧ p.accept ≠ some fd)
    (hclean : p.accept ≠ none → d.sco = none ∨ d.head = trim cfg ∧ d.tail = 0) :
    let out := handleConnectionEvent cfg codec p d
    (∀ s ∈ sessions out.2.trace, s.Ok cfg) ∧ Distinct cfg out.2 ∧ (out.1 = .scoFailed ∨ Inv cfg out.2) := by
  rw [handleConnectionEvent]
  cases hfd : p.accept with
  | none => exact ⟨h.ok, ⟨hd.sco, nofun, fun _ _ => nofun⟩, .inr (inv_of_no_client h.ok rfl)⟩
  | some fd =>
    obtain ⟨hserver, hsco⟩ := haccept fd hfd
    have hok := @ok_accept σ cfg d fd h.ok
    have hnew : some fd ≠ some cfg.server := fun heq => hserver (Option.some.inj heq)
    cases hopened : d.sco with
    | some sco =>
      have hcleared := (hclean (hfd ▸ Option.some_ne_none fd)).resolve_left (hopened ▸ Option.some_ne_none sco)
      have hold : some sco ≠ some cfg.server := fun heq => hd.sco (hopened.trans heq)
      have happart : ∀ g, some sco = some g → some fd ≠ some g := fun g hg heq => hsco (hopened.trans (hg.trans heq.symm))
      refine ⟨hok, ⟨hold, hnew, happart⟩, .inr ⟨hok, fun _ => ⟨_, _, rfl, ?_⟩⟩⟩
      rw [hcleared.1, hcleared.2]
      exact linked_cleared _ _
    | none =>
      cases hnewSco : p.openSco with
      | none => exact ⟨hok, ⟨nofun, hnew, nofun⟩, .inl rfl⟩
      | some sco =>
        obtain ⟨hserver', hapart⟩ := hopen sco hnewSco
        have happart : ∀ g, some sco = some g → some fd ≠ some g := fun g hg heq => hapart (hfd.trans (heq.trans hg.symm))
        exact ⟨hok, ⟨fun heq => hserver' (Option.some.inj heq), hnew, happart⟩,
          .inr ⟨hok, fun _ => ⟨_, _, rfl, linked_cleared _ _⟩⟩⟩

/-! ### Sockets -/

theorem pollSocket_sco (ret : Status) (h : Inv cfg d) (hd : Distinct cfg d) :
    Inv cfg (pollSocket cfg codec p .sco ret d).2.2 ∧ Distinct cfg (pollSocket cfg codec p .sco ret d).2.2 ∧
      ∀ fd, d.sco ≠ some fd → (pollSocket cfg codec p .sco ret d).2.2.sco ≠ some fd := by
  have hsame : Inv cfg d ∧ Distinct cfg d ∧ ∀ fd, d.sco ≠ some fd → d.sco ≠ some fd := ⟨h, hd, fun _ hfd => hfd⟩
  rw [pollSocket]
  cases hfd : d.fd cfg .sco with
  | none => exact hsame
  | some fd =>
    have hsco : d.sco = some fd := hfd
    dsimp only
    by_cases hzero : p.revents .sco = 0
    · rw [if_pos hzero]
      exact hsame
    rw [if_neg hzero]
    by_cases hgone : p.revents .sco &&& pollGone ≠ 0
    · rw [if_pos hgone, handleDisconnectionEvent, if_pos (hfd.trans hsco.symm)]
      exact ⟨⟨h.ok, h.linked⟩, ⟨nofun, hd.client, nofun⟩, fun _ _ => nofun⟩
    have hserver : fd ≠ cfg.server := fun heq => hd.sco (heq ▸ hsco)
    rw [if_neg hgone, if_neg fun hand => hserver hand.1, if_pos hsco.symm]
    obtain ⟨hinv, hsco', hclient'⟩ := handleScoPacket_inv h
    exact ⟨hinv, hd.of_fds hsco' hclient', fun g hg => hsco' ▸ hg⟩

theorem pollSocket_server (ret : Status) (hd : Distinct cfg d) :
    (pollSocket cfg codec p .server ret d = (true, handleConnectionEvent cfg codec p d) ∧ p.revents .server &&& pollIn ≠ 0) ∨
      ∃ ret', pollSocket cfg codec p .server ret d = (false, ret', d) := by
  show (if p.revents .server = 0 then _ else _ : Bool × Status × Daemon σ) = _ ∧ _ ∨
    ∃ ret', (if p.revents .server = 0 then _ else _ : Bool × Status × Daemon σ) = _
  by_cases hzero : p.revents .server = 0
  · rw [if_pos hzero]
    exact .inr ⟨ret, rfl⟩
  rw [if_neg hzero]
  by_cases hgone : p.revents .server &&& pollGone ≠ 0
  · rw [if_pos hgone, handleDisconnectionEvent, if_neg fun heq => hd.sco heq.symm, if_neg fun heq => hd.client heq.symm]
    exact .inr ⟨.success, rfl⟩
  rw [if_neg hgone]
  by_cases hin : p.revents .server &&& pollIn ≠ 0
  · rw [if_pos ⟨rfl, hin⟩]
    exact .inl ⟨rfl, hin⟩
  · rw [if_neg fun hand => hin hand.2, if_neg fun heq => hd.sco heq.symm, if_neg fun heq => hd.client heq.symm]
    exact .inr ⟨ret, rfl⟩

theorem pollSocket_client (ret : Status) (h : Inv cfg d) (hd : Distinct cfg d) :
    Inv cfg (pollSocket cfg codec p .client ret d).2.2 ∧ Distinct cfg (pollSocket cfg codec p .client ret d).2.2 := by
  rw [pollSocket]
  cases hfd : d.fd cfg .client with
  | none => exact ⟨h, hd⟩
  | some fd =>
    have hclient : d.client = some fd := hfd
    have hsco : some fd ≠ d.sco := fun heq => hd.apart fd heq.symm hclient
    dsimp only
    by_cases hzero : p.revents .client = 0
    · rw [if_pos hzero]
      exact ⟨h, hd⟩
    rw [if_neg hzero]
    by_cases hgone : p.revents .client &&& pollGone ≠ 0
    · rw [if_pos hgone, handleDisconnectionEvent, if_neg fun heq => hsco (hfd.symm.trans heq), if_pos (hfd.trans hclient.symm)]
      exact ⟨inv_of_no_client h.ok rfl, nofun, nofun, fun _ _ => nofun⟩
    have hserver : fd ≠ cfg.server := fun heq => hd.client (heq ▸ hclient)
    rw [if_neg hgone, if_neg fun hand => hserver hand.1, if_neg hsco, if_pos hclient.symm]
    by_cases hdata : d.tail > 0
    · rw [if_pos hdata]
      obtain ⟨hinv, hsco', hclient'⟩ := writeToClient_inv h
      exact ⟨hinv, hd.of_fds hsco' hclient'⟩
    · rw [if_neg hdata]
      exact ⟨h, hd⟩

/-! ### Turns -/

/-- The sockets of one turn. -/
theorem pollSockets_inv (h : Inv cfg d) (hd : Distinct cfg d) (hfresh : Fresh cfg p d) (hclean : CleanAccept cfg codec p d) :
    let out := pollSockets cfg codec p [.sco, .server, .client] .success d
    (∀ s ∈ sessions out.2.trace, s.Ok cfg) ∧ Distinct cfg out.2 ∧ (out.1 = .scoFailed ∨ Inv cfg out.2) := by
  obtain ⟨hinv, hd1, hscoFd⟩ := @pollSocket_sco σ cfg codec p d .success h hd
  rw [CleanAccept] at hclean
  rw [pollSockets]
  obtain ⟨⟨stop, ret, d1⟩, hsco⟩ : ∃ r, pollSocket cfg codec p .sco .success d = r := ⟨_, rfl⟩
  rw [hsco] at hinv hd1 hscoFd hclean ⊢
  cases stop with
  | true => exact ⟨hinv.ok, hd1, .inr hinv⟩
  | false =>
    dsimp only
    rw [pollSockets]
    obtain ⟨hserver, hin⟩ | ⟨ret', hserver⟩ := @pollSocket_server σ cfg codec p d1 ret hd1
    · rw [hserver]
      exact handleConnectionEvent_inv hinv hd1 (fun fd hfd => ⟨(hfresh.1 fd hfd).1, hscoFd fd (hfresh.1 fd hfd).2⟩) hfresh.2
        (hclean hin)
    rw [hserver]
    dsimp only
    obtain ⟨hinv', hd'⟩ := @pollSocket_client σ cfg codec p d1 ret' hinv hd1
    rw [pollSockets]
    obtain ⟨⟨stop', ret'', d2⟩, hclient⟩ : ∃ r, pollSocket cfg codec p .client ret' d1 = r := ⟨_, rfl⟩
    rw [hclient] at hinv' hd' ⊢
    cases stop' with
    | true | false => exact ⟨hinv'.ok, hd', .inr hinv'⟩

theorem restart_inv (hok : ∀ s ∈ sessions d.trace, s.Ok cfg) (hd : Distinct cfg d) :
    Inv cfg (restart cfg codec d) ∧ Distinct cfg (restart cfg codec d) := by
  rw [restart]
  cases hclient : d.client with
  | none => exact ⟨inv_of_no_client hok hclient, hd⟩
  | some fd => exact ⟨inv_of_no_client hok rfl, hd.sco, nofun, fun _ _ => nofun⟩

theorem turn_inv (h : Inv cfg d) (hd : Distinct cfg d) (hfresh : Fresh cfg p d) (hclean : CleanAccept cfg codec p d) :
    Inv cfg (turn cfg codec p d) ∧ Distinct cfg (turn cfg codec p d) := by
  obtain ⟨hok, hd', hinv⟩ := pollSockets_inv h hd hfresh hclean
  rw [turn]
  dsimp only
  split
  · exact restart_inv hok hd'
  · next hret => exact ⟨hinv.resolve_left fun hfailed => hret (.inl hfailed), hd'⟩

theorem run_inv {polls : List Poll} (h : Inv cfg d) (hd : Distinct cfg d) (hclean : RunClean cfg codec polls d) :
    Inv cfg (polls.foldl (fun d p => turn cfg codec p d) d) := by
  induction polls generalizing d with
  | nil => exact h
  | cons p polls ih =>
    obtain ⟨hfresh, hclean, hrest⟩ := hclean
    obtain ⟨hinv, hd'⟩ := turn_inv h hd hfresh hclean
    exact ih hinv hd' hrest

theorem boot_inv (st : σ) : Inv cfg (boot st) ∧ Distinct cfg (boot st) :=
  ⟨inv_of_no_client (nofun) rfl, nofun, nofun, fun _ _ => nofun⟩

/-- In every run in which clients are accepted over a cleared buffer only, what each client was
sent is the start of its own session. -/
theorem client_hears_its_session {polls : List Poll} {st : σ} (hclean : RunClean cfg codec polls (boot st)) :
    ∀ s ∈ sessions (startMainLoop cfg codec polls st).trace, s.Ok cfg :=
  (run_inv (boot_inv st).1 (boot_inv st).2 hclean).ok

end Steps

/-! ## A client and its replacement -/

/-- Frames as they come. -/
def rawConfig : Config := ⟨false, false, 0, 3⟩

def rawCodec : Codec Unit := ⟨fun _ _ pcm => (0, pcm, ()), fun _ _ bytes => (bytes, ()), id⟩

def packet : List UInt8 := [0x01, 0x08, 0xAD] ++ List.replicate 57 0x42

/-- Client 5 connects, and a packet comes. -/
def firstClient : List Poll :=
  [⟨fun id => if id = .server then 1 else 0, none, false, some 5, some 6, none⟩,
   ⟨fun id => if id = .sco then 1 else 0, some packet, false, none, none, none⟩]

/-- The client takes 10 bytes. -/
def takeTen : Poll := ⟨fun id => if id = .client then 4 else 0, none, false, none, none, some 10⟩

/-- Client 7 takes the place of client 5. -/
def secondClient : Poll := ⟨fun id => if id = .server then 1 else 0, none, false, some 7, none, none⟩

theorem first_client_clean : RunClean rawConfig rawCodec (firstClient ++ [takeTen]) (boot ()) := by
  refine ⟨⟨fun fd hfd => ?_, fun fd hfd => ?_⟩, fun _ _ => .inl rfl, ?_⟩
  · obtain rfl : 5 = fd := Option.some.inj hfd
    exact ⟨by decide, by decide⟩
  · obtain rfl : 6 = fd := Option.some.inj hfd
    exact ⟨by decide, by decide⟩
  refine ⟨⟨nofun, nofun⟩, fun hin => absurd rfl hin, ?_⟩
  exact ⟨⟨nofun, nofun⟩, fun hin => absurd rfl hin, trivial⟩

theorem first_client_hears_its_session :
    sessions (startMainLoop rawConfig rawCodec (firstClient ++ [takeTen]) ()).trace =
      [⟨[(packet.drop 2, 0)], 0xAD :: List.replicate 9 0x42⟩] ∧
    ∀ s ∈ sessions (startMainLoop rawConfig rawCodec (firstClient ++ [takeTen]) ()).trace, s.Ok rawConfig :=
  ⟨by decide +kernel, client_hears_its_session first_client_clean⟩

/-- The second client gets the frame of the first one; there is none in its own session. -/
theorem replacement_hears_the_old_session :
    ∃ s ∈ sessions (startMainLoop rawConfig rawCodec (firstClient ++ [secondClient, takeTen]) ()).trace,
      s.frames = [] ∧ s.sent = 0xAD :: List.replicate 9 0x42 ∧ ¬ s.Ok rawConfig := by
  have hsessions : (sessions (startMainLoop rawConfig rawCodec (firstClient ++ [secondClient, takeTen]) ()).trace).head? =
      some ⟨[], 0xAD :: List.replicate 9 0x42⟩ := by
    decide +kernel
  refine ⟨_, mem_of_mem_head? hsessions, rfl, rfl, fun hok => ?_⟩
  have hnil := prefix_nil.mp hok
  exact nomatch hnil

end AmlogicV901d.Guarantees.BtSessions
