/-!
# Checksums

The two checksums of a PNG file: a cyclic redundancy check over each chunk, and
the sum of Adler over the pixel data. Both are computed byte by byte.
-/

namespace Easel.Png

/-- One division step of the cyclic redundancy check, repeated. -/
def crcSteps : Nat → UInt32 → UInt32
  | 0, c => c
  | n + 1, c => crcSteps n (if c % 2 = 1 then (c >>> 1) ^^^ 0xEDB88320 else c >>> 1)

/-- The check of every single byte. -/
def crcTable : Array UInt32 :=
  Array.ofFn fun i : Fin 256 => crcSteps 8 (UInt32.ofNat i.val)

/-- The cyclic redundancy check of bytes. -/
def crc32 (bytes : ByteArray) : UInt32 :=
  bytes.foldl (fun c b => crcTable.getD ((c ^^^ b.toUInt32) &&& 0xFF).toNat 0 ^^^ (c >>> 8))
    0xFFFFFFFF ^^^ 0xFFFFFFFF

/-- The sum of Adler of bytes. -/
def adler32 (bytes : ByteArray) : UInt32 :=
  let (a, b) := bytes.foldl (fun (a, b) byte =>
    let a := (a + byte.toNat) % 65521
    (a, (b + a) % 65521)) (1, 0)
  UInt32.ofNat (b * 65536 + a)

end Easel.Png
