/-!
# `sound/soc/amlogic/auge/vad.c`

The transfer of the voice data to user space. Bytes are named by their offsets in the DMA buffer,
so that nothing depends on the contents. `copy_to_user` refuses a length below 0, which is above
all user addresses, and copies every other one.
-/
namespace AmlogicV901d.Source.Vad

/-- What an `int` keeps of a result. -/
def int (x : Int) : Int := Int.bmod x 0x100000000

structure Vad where
  dmaBytes : Int
  dmaAddr : Int
  addr : Int
  channels : Int
  bitdepth : Int

def Vad.endAddr (p : Vad) : Int := int (p.dmaAddr + p.dmaBytes - 8)

def Vad.bytesPerSample (p : Vad) : Int := p.bitdepth / 8

def Vad.frameBytes (p : Vad) : Int := int (p.channels * p.bytesPerSample)

def Vad.wanted (p : Vad) (frames : Int) : Int := int (frames * p.channels * p.bytesPerSample)

/-- The offsets that are read, in the order of the user's buffer, and what is returned, which is
nothing when a division by 0 stops the call. -/
structure Transfer where
  read : List Int
  ret : Option Int
  deriving DecidableEq, Repr

/-- What one copy reads. -/
def offsets (offset len : Int) : List Int := (List.range len.toNat).map fun i : Nat => offset + i

def vadTransferChunkData (p : Vad) (frames : Int) : Transfer :=
  let pos := p.addr - p.dmaAddr
  if p.addr < p.dmaAddr ∨ p.addr > p.endAddr then ⟨[], some 0⟩
  else
    let bytes := if p.wanted frames < p.dmaBytes then p.wanted frames else p.dmaBytes
    let ret := if p.frameBytes = 0 then none else some (bytes.tdiv p.frameBytes)
    if pos ≥ bytes then
      if bytes < 0 then ⟨[], some 0⟩ else ⟨offsets (p.addr - bytes - p.dmaAddr) bytes, ret⟩
    else
      let tmpBytes := bytes - pos
      let tmpOffset := p.endAddr - tmpBytes - p.dmaAddr
      ⟨offsets tmpOffset tmpBytes ++ offsets 0 pos, ret⟩

end AmlogicV901d.Source.Vad
