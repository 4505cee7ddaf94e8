/-!
# Verification of a partition by its SHA-1

`v2_usb_tool/optimus_transform.c:129-236`, `optimus_sha1sum` with a partition, a length and a
digest. All reads succeed; the SHA-1 functions are parameters. The text `sha1_value` only grows,
so what is written to its buffer is the last one and its end.
-/
namespace AmlogicV901d.Source.Optimus.Sha1sum

/-- SHA-1 and the functions that compute it; `state` are the words of the context. -/
structure Sha1 where
  Ctx : Type
  sha1Starts : Ctx
  sha1Update : Ctx → List UInt8 → Ctx
  sha1Finish : Ctx → Vector UInt8 20
  state : Ctx → Vector UInt32 5
  sha1 : List UInt8 → Vector UInt8 20
  finish_eq : ∀ parts : List (List UInt8), sha1Finish (parts.foldl sha1Update sha1Starts) = sha1 parts.flatten

/-- A number with `k` hexadecimal digits. -/
def hex : Nat → Nat → List Char
  | 0, _ => []
  | k + 1, n => hex k (n / 16) ++ [Nat.digitChar (n % 16)]

def buffermax : Nat := 64 * 1024 * 1024

/-- `store_read_ops` -/
def storeRead (partition : Nat → UInt8) (offset size : Nat) : List UInt8 :=
  (List.range size).map fun i => partition (offset + i)

/-- The rounds of `buffermax` bytes, until the rest is not more. -/
def rounds (sha : Sha1) (partition : Nat → UInt8) (need offset : Nat) (ctx : sha.Ctx) (text : List Char) :
    Nat × Nat × sha.Ctx × List Char :=
  if buffermax < need then
    let ctx := sha.sha1Update ctx (storeRead partition offset buffermax)
    rounds sha partition (need - buffermax) (offset + buffermax) ctx
      (text ++ (sha.state ctx).toList.flatMap fun word => hex 8 word.toNat)
  else (need, offset, ctx, text)
termination_by need
decreasing_by simp only [buffermax] at *; omega

/-- The result and the text. -/
def optimusSha1sum (sha : Sha1) (partition : Nat → UInt8) (verifyLen : Nat) (sha1Verify : List Char) :
    Int × List Char :=
  let (need, offset, ctx, text) := rounds sha partition verifyLen 0 sha.sha1Starts []
  let output := sha.sha1Finish (sha.sha1Update ctx (storeRead partition offset need))
  let text := text ++ output.toList.flatMap fun byte => hex 2 byte.toNat
  (if sha1Verify.take 40 = text.take 40 then 0 else -1, text)

end AmlogicV901d.Source.Optimus.Sha1sum
