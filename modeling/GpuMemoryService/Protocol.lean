/-
GpuMemoryService.Protocol — the framed, checksummed, versioned protocol
between coordinator and worker (`protocol.hpp`, `protocol.cpp`).

A frame is magic, version, type, payload length, payload and a checksum of
everything behind the magic.

Translation notes.
* The `append_*` functions push to the end of a buffer and the `take_*`
  functions read at a position and advance it; both are kept, with the
  buffer and the position as arguments and results.
* `decode` returns false and leaves the frame alone, or returns true with
  the frame and the number of bytes consumed: here `none` or both.
* `Msg` is a byte with eleven declared values, and any byte is cast to it.
-/
import GpuMemoryService.EnumBytes
import GpuMemoryService.Lib.Bytes
import GpuMemoryService.Lib.Crc

namespace GpuMemoryService.Mp

open Lib

/-- The bytes of "GSMP". -/
def kMagic : UInt32 := 0x47534d50

def kVersion : UInt32 := 1

/-- Bounded payload. -/
def kMaxFrame : UInt32 := 0x100000

inductive Msg where
  | hello
  | register
  | publishCapacity
  | allocate
  | allocateResult
  | release
  | releaseResult
  | fenceWorker
  | query
  | queryResult
  | shutdown
  | undeclared (byte : UInt8) (outside : byte = 0 ∨ 12 ≤ byte)
deriving DecidableEq, Repr

namespace Msg

/-- The declared messages, which are numbered from 1. -/
def all : List Msg :=
  [hello, register, publishCapacity, allocate, allocateResult, release, releaseResult,
   fenceWorker, query, queryResult, shutdown]

def toByte : Msg → UInt8
  | undeclared b _ => b
  | m => position all m + 1

def ofByte (b : UInt8) : Msg :=
  if h : b = 0 ∨ 12 ≤ b then undeclared b h else all.getD (b.toNat - 1) hello

@[simp] theorem ofByte_toByte (m : Msg) : ofByte m.toByte = m := by
  cases m with
  | undeclared b h => simp [ofByte, toByte, h]
  | _ => decide

@[simp] theorem toByte_ofByte (b : UInt8) : (ofByte b).toByte = b :=
  forall_byte (p := fun b => (ofByte b).toByte = b) (by decide +kernel) b

end Msg

structure Frame where
  type : Msg := .hello
  payload : Bytes := []
deriving DecidableEq, Repr

def crc32 (data : Bytes) : UInt32 := crc 0xEDB88320 data

/-! ## Fields -/

def appendU8 (b : Bytes) (v : UInt8) : Bytes := b ++ putU8 v

def appendU32 (b : Bytes) (v : UInt32) : Bytes := b ++ putU32 v

def appendU64 (b : Bytes) (v : UInt64) : Bytes := b ++ putU64 v

/-- The two's complement bits, as `static_cast<std::uint32_t>` gives them. -/
def appendI32 (b : Bytes) (v : Int32) : Bytes := appendU32 b v.toUInt32

def appendStr (b : Bytes) (s : Bytes) : Bytes := appendU32 b (UInt32.ofNat s.length) ++ s

/-- The `w` bytes at a position, and the position behind them. -/
def takeWord (w : Nat) (b : Bytes) (p : Nat) : Option (Bytes × Nat) :=
  if p + w > b.length then none else some ((b.drop p).take w, p + w)

def takeU8 (b : Bytes) (p : Nat) : Option (UInt8 × Nat) := do
  let (w, p) ← takeWord 1 b p
  pure (UInt8.ofNat (gather w), p)

def takeU32 (b : Bytes) (p : Nat) : Option (UInt32 × Nat) := do
  let (w, p) ← takeWord 4 b p
  pure (UInt32.ofNat (gather w), p)

def takeU64 (b : Bytes) (p : Nat) : Option (UInt64 × Nat) := do
  let (w, p) ← takeWord 8 b p
  pure (UInt64.ofNat (gather w), p)

def takeI32 (b : Bytes) (p : Nat) : Option (Int32 × Nat) := do
  let (t, p) ← takeU32 b p
  pure (t.toInt32, p)

def takeStr (b : Bytes) (p : Nat) : Option (Bytes × Nat) := do
  let (n, p) ← takeU32 b p
  guard (¬ n > kMaxFrame)
  guard (¬ p + n.toNat > b.length)
  pure ((b.drop p).take n.toNat, p + n.toNat)

/-! ## Frames -/

def encode (type : Msg) (payload : Bytes) : Bytes :=
  let b := appendU32 [] kMagic
  let b := appendU32 b kVersion
  let b := appendU8 b type.toByte
  let b := appendU32 b (UInt32.ofNat payload.length)
  let b := b ++ payload
  -- over the bytes behind the magic
  appendU32 b (crc32 (b.drop 4))

def decode (buf : Bytes) : Option (Frame × Nat) := do
  guard (¬ buf.length < 4 + 4 + 1 + 4 + 4)
  let (magic, p) ← takeU32 buf 0
  guard (magic = kMagic)
  let (ver, p) ← takeU32 buf p
  guard (ver = kVersion)
  let (t, p) ← takeU8 buf p
  let (len, p) ← takeU32 buf p
  guard (¬ len > kMaxFrame)
  guard (¬ p + len.toNat + 4 > buf.length)
  let payloadStart := p
  let (crcval, p) ← takeU32 buf (p + len.toNat)
  let expectCrc := crc32 ((buf.drop 4).take (payloadStart + len.toNat - 4))
  guard (crcval = expectCrc)
  pure ({ type := .ofByte t, payload := (buf.drop payloadStart).take len.toNat }, p)

end GpuMemoryService.Mp
