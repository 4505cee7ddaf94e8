import Mathlib.Data.List.Basic

/-!
# The audio data block of the composed EDID

`hdmirx/hdmi_rx_edid.c`: `compose_audio_db`. A block is its header byte with the short audio
descriptors of its payload; the payloads are whole descriptors. The buffer `com_aud` has 31
bytes, of which the model has the descriptors that were copied.
-/
namespace AmlogicV901d.Source.HdmiRx

/-- A short audio descriptor: SAD_LEN bytes. -/
structure Sad where
  b0 : UInt8
  b1 : UInt8
  b2 : UInt8
  deriving DecidableEq, Repr

def Sad.format (sad : Sad) : UInt8 := (sad.b0 &&& 0x78) >>> 3

structure AudioDb where
  header : UInt8
  sads : List Sad
  deriving DecidableEq, Repr

def AudioDb.tag (db : AudioDb) : UInt8 := db.header >>> 5

/-- BLK_LENGTH -/
def AudioDb.blkLength (db : AudioDb) : Nat := (db.header &&& 0x1f).toNat

/-- What was copied to `com_aud`, and what is left of the second block. -/
structure Composing where
  comAud : List Sad
  tmpBuf : List Sad

/-- A round of the loop over the first block. -/
def composeSad (c : Composing) (sad : Sad) : Composing :=
  match c.tmpBuf.find? fun tmp => tmp.format = sad.format with
  | none => { c with comAud := c.comAud ++ [sad] }
  | some tmp => ⟨c.comAud ++ [tmp], c.tmpBuf.eraseP fun tmp => tmp.format = sad.format⟩

/-- The loop has room for ten descriptors. -/
def composeAudioDb (audDb addBuf : AudioDb) : AudioDb :=
  let c := (audDb.sads.take 10).foldl composeSad ⟨[], addBuf.sads⟩
  let idx := 1 + 3 * c.comAud.length
  let addBufLen := 1 + 3 * c.tmpBuf.length
  ⟨(1 : UInt8) <<< 5 ||| UInt8.ofNat ((idx - 1) + (addBufLen - 1)),
    if idx < 31 ∧ idx + addBufLen - 1 ≤ 31 then c.comAud ++ c.tmpBuf else c.comAud⟩

end AmlogicV901d.Source.HdmiRx
