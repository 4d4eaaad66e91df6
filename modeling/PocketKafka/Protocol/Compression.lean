import PocketKafka.Lib.BackReference
import PocketKafka.Lib.Bytes
import PocketKafka.Lib.Failure

namespace PocketKafka.Protocol

open BackReference Bytes

def compressionNone : Int := 0
def compressionGzip : Int := 1
def compressionSnappy : Int := 2
def compressionLZ4 : Int := 3

def compressionCodec (attr : Int) : Int := attr % 8

def withCodec (attr codec : Int) : Int := attr - attr % 8 + codec

structure Gzip where
  compress : Bytes → Except Failure Bytes
  decompress : Bytes → Except Failure Bytes

def byteOf (x : Int) : UInt8 := UInt8.ofNat (x % 256).toNat

def leUint (b : Bytes) : Nat := beUint b.reverse

def minMatch : Nat := 4

def word (src : Bytes) (i : Nat) : Nat := leUint (slice src i (i + 4))

def Table := Nat → Int

def Table.empty : Table := fun _ => -1

def Table.set (table : Table) (pos : Nat) (i : Int) : Table := Function.update table pos i

/-- The candidate if it is usable: four equal bytes that end before `i`, at most 65535 back. -/
def usable (src : Bytes) (cand : Int) (i : Nat) : Option Nat :=
  if 0 ≤ cand ∧ cand + 4 ≤ i ∧ i - cand ≤ 65535 ∧
      slice src cand.toNat (cand.toNat + 4) = slice src i (i + 4) then some cand.toNat else none

def appendSnappyLiteral (out src : Bytes) : Bytes :=
  let n : Int := src.length
  let head :=
    if n < 60 then [byteOf ((n - 1) * 4)]
    else if n < 256 then [240, byteOf (n - 1)]
    else if n < 65536 then [244, byteOf (n - 1), byteOf ((n - 1) / 256)]
    else [248, byteOf (n - 1), byteOf ((n - 1) / 256), byteOf ((n - 1) / 65536), byteOf ((n - 1) / 16777216)]
  out ++ head ++ src

def emitLiteral (src : Bytes) (litStart stop : Nat) (out : Bytes) : Bytes :=
  if litStart < stop then appendSnappyLiteral out (slice src litStart stop) else out

def snappyHash (word : Nat) : Nat := word * 0x1e35a7bd % 4294967296 / 32768 % 16384

/-- The tag of a copy with its offset: two bytes for a short one that is near, else three. -/
def snappyCopyTag (offset matchLen : Nat) : Bytes :=
  let off := offset - 1
  if off ≤ 511 ∧ matchLen < 12 then [UInt8.ofNat ((matchLen - 4) * 4 + 1 + off / 256 * 32), UInt8.ofNat off]
  else [UInt8.ofNat ((matchLen - 1) * 4 + 2), UInt8.ofNat off, UInt8.ofNat (off / 256)]

def snappyBlockLoop (src : Bytes) (table : Table) (litStart i : Nat) (out : Bytes) : Bytes :=
  if i + minMatch ≤ src.length then
    let pos := snappyHash (word src i)
    match usable src (table pos) i with
    | some cand =>
      let matchLen := matchLength src 64 cand i 4
      snappyBlockLoop src (table.set pos (int32 i)) (i + matchLen) (i + matchLen)
        (emitLiteral src litStart i out ++ snappyCopyTag (i - cand) matchLen)
    | none => snappyBlockLoop src (table.set pos (int32 i)) litStart (i + 1) out
  else emitLiteral src litStart src.length out
termination_by src.length - i
decreasing_by
  · have := le_matchLength src 64 cand i 4
    unfold minMatch at *
    omega
  · unfold minMatch at *
    omega

def snappyBlockEncode (src : Bytes) : Bytes := snappyBlockLoop src Table.empty 0 0 []

def snappyEncode (src : Bytes) : Bytes :=
  if src.length ≤ 4 then appendSnappyLiteral (putBE 4 src.length) src
  else
    let encoded := snappyBlockEncode src
    putBE 4 encoded.length ++ encoded

def snappyCopy (dst : Bytes) (offset length : Nat) : Except Failure Bytes :=
  if offset = 0 ∨ dst.length < offset then .error (.error s!"snappy: invalid copy offset {offset}")
  else .ok (repeatBack offset length dst)

/-- A copy element whose offset takes up `width` bytes behind the tag; `high` is the part of the offset that
    is in the tag. -/
def snappyCopyElement (dst rest : Bytes) (width high length : Nat) : Except Failure (Bytes × Nat) :=
  if rest.length < width then .error (.error "snappy: copy overrun")
  else
    match snappyCopy dst (leUint (rest.take width) + high + 1) length with
    | .error failure => .error failure
    | .ok dst => .ok (dst, width)

def snappyLiteralElement (dst rest : Bytes) (tag : Nat) : Except Failure (Bytes × Nat) :=
  let width := tag / 4 - 59
  if rest.length < width then .error (.error "snappy: literal length overrun")
  else
    let length := (if 60 ≤ tag / 4 then leUint (rest.take width) else tag / 4) + 1
    if (rest.drop width).length < length then .error (.error "snappy: literal overrun")
    else .ok (dst ++ (rest.drop width).take length, width + length)

/-- One element: the output with it appended, and how many bytes behind the tag it takes up. -/
def snappyElement (dst : Bytes) (tag : Nat) (rest : Bytes) : Except Failure (Bytes × Nat) :=
  if tag % 4 = 0 then snappyLiteralElement dst rest tag
  else if tag % 4 = 1 then snappyCopyElement dst rest 1 (tag / 32 * 256) (4 + tag / 4)
  else if tag % 4 = 2 then snappyCopyElement dst rest 2 0 (1 + tag / 4)
  else snappyCopyElement dst rest 4 0 (1 + tag / 4)

def snappyBlockDecode (dst : Bytes) : Bytes → Except Failure Bytes
  | [] => .ok dst
  | tag :: rest =>
    match snappyElement dst tag.toNat rest with
    | .error failure => .error failure
    | .ok (dst, used) => snappyBlockDecode dst (rest.drop used)
termination_by src => src.length
decreasing_by simp

def snappyDecode (src : Bytes) : Except Failure Bytes :=
  let size := src.length
  if size = 0 then .ok []
  else if size < 4 then .error (.error "snappy: missing length prefix")
  else
    let blockLen := beUint (src.take 4)
    let avail := size - 4
    if blockLen ≠ avail then .error (.error s!"snappy: length mismatch {blockLen} != {avail}")
    else snappyBlockDecode [] (src.drop 4)

def lz4FrameMagic : Nat := 0x184D2204

def lz4Hash (word : Nat) : Nat :=
  let h := word ^^^ (word / 65536)
  let h := h * 0x9e3779b1 % 4294967296
  (h ^^^ (h / 65536)) % 16384

def lz4ExtraBytes (rest : Nat) : Bytes :=
  if 255 ≤ rest then 255 :: lz4ExtraBytes (rest - 255) else [UInt8.ofNat rest]
termination_by rest

def lz4Literals (low : Nat) (literals : Bytes) : Bytes :=
  let litLen := literals.length
  if 15 ≤ litLen then UInt8.ofNat (15 * 16 + low) :: (lz4ExtraBytes (litLen - 15) ++ literals)
  else UInt8.ofNat (litLen * 16 + low) :: literals

def lz4Match (offset matchLen : Nat) : Bytes :=
  [UInt8.ofNat offset, UInt8.ofNat (offset / 256)] ++ if 19 ≤ matchLen then lz4ExtraBytes (matchLen - 19) else []

def lz4BlockLoop (src : Bytes) (table : Table) (litStart i : Nat) (out : Bytes) : Bytes :=
  if i + minMatch ≤ src.length then
    let pos := lz4Hash (word src i)
    match usable src (table pos) i with
    | some cand =>
      let matchLen := matchLength src 65550 cand i 4
      lz4BlockLoop src (table.set pos (int32 i)) (i + matchLen) (i + matchLen)
        (out ++ lz4Literals (if 19 ≤ matchLen then 15 else matchLen - 4) (slice src litStart i) ++
          lz4Match (i - cand) matchLen)
    | none => lz4BlockLoop src (table.set pos (int32 i)) litStart (i + 1) out
  else out ++ lz4Literals 0 (src.drop litStart)
termination_by src.length - i
decreasing_by
  · have := le_matchLength src 65550 cand i 4
    unfold minMatch at *
    omega
  · unfold minMatch at *
    omega

def lz4BlockEncode (src : Bytes) : Bytes := lz4BlockLoop src Table.empty 0 0 []

def lz4BlockCompress (src : Bytes) : Bytes :=
  if src.length = 0 then []
  else
    let block := lz4BlockEncode src
    putBE 4 lz4FrameMagic ++ putBE 4 block.length ++ putBE 4 src.length ++ block

def lz4ExtraLength : Bytes → Option (Nat × Nat)
  | [] => none
  | b :: rest =>
    if b = 255 then (lz4ExtraLength rest).map fun (extra, used) => (255 + extra, used + 1)
    else some (b.toNat, 1)

def lz4Length (nibble : Nat) (rest : Bytes) : Option (Nat × Nat) :=
  if nibble = 15 then (lz4ExtraLength rest).map fun (extra, used) => (15 + extra, used) else some (nibble, 0)

def lz4DecodeLoop (dst : Bytes) : Bytes → Except Failure Bytes
  | [] => .ok dst
  | token :: rest =>
    match lz4Length (token.toNat / 16) rest with
    | none => .error (.error "lz4: literal length overrun")
    | some (litLen, used) =>
      if (rest.drop used).length < litLen then .error (.error "lz4: literal overrun")
      else
        let dst := dst ++ (rest.drop used).take litLen
        let after := rest.drop (used + litLen)
        if after.length = 0 then .ok dst
        else if after.length < 2 then .error (.error "lz4: offset overrun")
        else
          let offset := leUint (after.take 2)
          match lz4Length (token.toNat % 16) (after.drop 2) with
          | none => .error (.error "lz4: match length overrun")
          | some (matchLen, used') =>
            if offset = 0 ∨ dst.length < offset then .error (.error s!"lz4: invalid offset {offset}")
            else lz4DecodeLoop (repeatBack offset (matchLen + 4) dst) (rest.drop (used + litLen + 2 + used'))
termination_by src => src.length
decreasing_by simp

def lz4BlockDecode (src : Bytes) (uncompLen : Nat) : Except Failure Bytes :=
  match lz4DecodeLoop [] src with
  | .error failure => .error failure
  | .ok dst => .ok (if uncompLen < dst.length then dst.take uncompLen else dst)

def lz4BlockDecompress (src : Bytes) : Except Failure Bytes :=
  let size := src.length
  if size = 0 then .ok []
  else if size < 12 then .error (.error "lz4: frame too short")
  else
    let magic := beUint (slice src 0 4)
    let compLen := beUint (slice src 4 8)
    let uncompLen := beUint (slice src 8 12)
    let avail := size - 12
    if magic ≠ lz4FrameMagic then
      let digits := String.ofList ((Nat.toDigits 16 magic).leftpad 8 '0')
      .error (.error s!"lz4: bad magic 0x{digits}")
    else if compLen ≠ avail then .error (.error s!"lz4: length mismatch comp={compLen} avail={avail}")
    else
      let block := src.drop 12
      let block := if block.length + 4 = compLen ∧ uncompLen = compLen + 4 then block.take (compLen - 4) else block
      match lz4BlockDecode block uncompLen with
      | .error failure => .error failure
      | .ok out =>
        let got := out.length
        if got ≠ uncompLen then .error (.error s!"lz4: decompressed size {got} != {uncompLen}") else .ok out

def decompressRecordBatch (gzip : Gzip) (records : Bytes) (attr : Int) : Except Failure Bytes :=
  if compressionCodec attr = compressionNone then .ok records
  else if compressionCodec attr = compressionGzip then gzip.decompress records
  else if compressionCodec attr = compressionSnappy then snappyDecode records
  else if compressionCodec attr = compressionLZ4 then lz4BlockDecompress records
  else .error (.error "unsupported compression codec")

end PocketKafka.Protocol
