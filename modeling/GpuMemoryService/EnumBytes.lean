/-
GpuMemoryService.EnumBytes — enumerations as the bytes they are stored in.

`static_cast` goes both ways between a scoped enumeration and its
underlying `uint8_t`, for every byte. `ByteEnum` carries the two casts with
the proof that they are inverse, and the declared enumerators, which
`enum.hpp` numbers from 0 without gaps.
-/
import GpuMemoryService.Types

namespace GpuMemoryService

class ByteEnum (E : Type) where
  /-- The declared enumerators in the order of the source. -/
  enumerators : List E
  toByte : E → UInt8
  ofByte : UInt8 → E
  ofByte_toByte : ∀ e, ofByte (toByte e) = e
  toByte_ofByte : ∀ b, toByte (ofByte b) = b
  declared_iff : ∀ b, ofByte b ∈ enumerators ↔ b.toNat < enumerators.length

export ByteEnum (toByte ofByte)

attribute [simp] ByteEnum.ofByte_toByte ByteEnum.toByte_ofByte

/-- The value is one of the declared enumerators. -/
def Declared {E : Type} [ByteEnum E] (e : E) : Prop := e ∈ ByteEnum.enumerators (E := E)

instance instDecidableDeclared {E : Type} [ByteEnum E] [DecidableEq E] (e : E) :
    Decidable (Declared e) :=
  inferInstanceAs (Decidable (e ∈ _))

/-- A declared value is one whose byte is below their number. -/
theorem declared_iff_toByte {E : Type} [ByteEnum E] (e : E) :
    Declared e ↔ (toByte e).toNat < (ByteEnum.enumerators (E := E)).length := by
  have h := @ByteEnum.declared_iff E _ (toByte e)
  rwa [ByteEnum.ofByte_toByte] at h

/-- A property of every byte is checked on the 256 of them. -/
theorem forall_byte {p : UInt8 → Prop} (h : ∀ n < 256, p (UInt8.ofNat n)) (b : UInt8) : p b := by
  have hb := h b.toNat b.toNat_lt
  rwa [UInt8.ofNat_toNat] at hb

/-- The number of a declared enumerator. -/
def position {E : Type} [DecidableEq E] (es : List E) (e : E) : UInt8 := UInt8.ofNat (es.idxOf e)

def Provenance.all : List Provenance :=
  [.unknown, .measured, .reported, .derived, .estimated, .synthetic, .reconstructed]

instance instByteEnumProvenance : ByteEnum Provenance where
  enumerators := Provenance.all
  toByte
    | .undeclared b _ => b
    | e => position Provenance.all e
  ofByte b := if h : 7 ≤ b then .undeclared b h else Provenance.all.getD b.toNat .unknown
  ofByte_toByte e := by
    cases e with
    | undeclared b h => simp [h]
    | _ => decide
  toByte_ofByte := forall_byte (by decide +kernel)
  declared_iff := forall_byte (by decide +kernel)

def MemoryClass.all : List MemoryClass :=
  [.unknown, .modelWeights, .adapterWeights, .kvCache, .activation, .tempWorkspace,
   .communicationBuffer, .collectiveBuffer, .checkpointStaging, .stateCache, .compilationArtifact,
   .userBuffer, .internal]

instance instByteEnumMemoryClass : ByteEnum MemoryClass where
  enumerators := MemoryClass.all
  toByte
    | .undeclared b _ => b
    | e => position MemoryClass.all e
  ofByte b := if h : 13 ≤ b then .undeclared b h else MemoryClass.all.getD b.toNat .unknown
  ofByte_toByte e := by
    cases e with
    | undeclared b h => simp [h]
    | _ => decide
  toByte_ofByte := forall_byte (by decide +kernel)
  declared_iff := forall_byte (by decide +kernel)

def Reclaimability.all : List Reclaimability :=
  [.unknown, .neverReclaim, .reclaimAfterCompletion, .reclaimIfCold, .reclaimIfReloadable,
   .reclaimIfCheckpointed, .bestEffort]

instance instByteEnumReclaimability : ByteEnum Reclaimability where
  enumerators := Reclaimability.all
  toByte
    | .undeclared b _ => b
    | e => position Reclaimability.all e
  ofByte b := if h : 7 ≤ b then .undeclared b h else Reclaimability.all.getD b.toNat .unknown
  ofByte_toByte e := by
    cases e with
    | undeclared b h => simp [h]
    | _ => decide
  toByte_ofByte := forall_byte (by decide +kernel)
  declared_iff := forall_byte (by decide +kernel)

def LifecycleState.all : List LifecycleState :=
  [.requested, .validating, .reserved, .allocating, .allocated, .resident, .pinned, .reclaimable,
   .evictionPending, .evicting, .relocationPending, .relocating, .releasePending, .released,
   .failed, .stale, .revalidationRequired, .superseded, .retired]

instance instByteEnumLifecycleState : ByteEnum LifecycleState where
  enumerators := LifecycleState.all
  toByte
    | .undeclared b _ => b
    | e => position LifecycleState.all e
  ofByte b := if h : 19 ≤ b then .undeclared b h else LifecycleState.all.getD b.toNat .requested
  ofByte_toByte e := by
    cases e with
    | undeclared b h => simp [h]
    | _ => decide
  toByte_ofByte := forall_byte (by decide +kernel)
  declared_iff := forall_byte (by decide +kernel)

def ResidencyState.all : List ResidencyState :=
  [.unknown, .nonresident, .staging, .resident, .active, .cold, .evictable, .evicting, .reloading,
   .stale, .revalidationRequired]

instance instByteEnumResidencyState : ByteEnum ResidencyState where
  enumerators := ResidencyState.all
  toByte
    | .undeclared b _ => b
    | e => position ResidencyState.all e
  ofByte b := if h : 11 ≤ b then .undeclared b h else ResidencyState.all.getD b.toNat .unknown
  ofByte_toByte e := by
    cases e with
    | undeclared b h => simp [h]
    | _ => decide
  toByte_ofByte := forall_byte (by decide +kernel)
  declared_iff := forall_byte (by decide +kernel)

def PressureState.all : List PressureState :=
  [.unknown, .low, .normal, .elevated, .high, .critical, .reclaiming, .recovering, .stale,
   .revalidationRequired]

instance instByteEnumPressureState : ByteEnum PressureState where
  enumerators := PressureState.all
  toByte
    | .undeclared b _ => b
    | e => position PressureState.all e
  ofByte b := if h : 10 ≤ b then .undeclared b h else PressureState.all.getD b.toNat .unknown
  ofByte_toByte e := by
    cases e with
    | undeclared b h => simp [h]
    | _ => decide
  toByte_ofByte := forall_byte (by decide +kernel)
  declared_iff := forall_byte (by decide +kernel)

def DeviceHealth.all : List DeviceHealth :=
  [.unknown, .healthy, .degraded, .unresponsive, .lost]

instance instByteEnumDeviceHealth : ByteEnum DeviceHealth where
  enumerators := DeviceHealth.all
  toByte
    | .undeclared b _ => b
    | e => position DeviceHealth.all e
  ofByte b := if h : 5 ≤ b then .undeclared b h else DeviceHealth.all.getD b.toNat .unknown
  ofByte_toByte e := by
    cases e with
    | undeclared b h => simp [h]
    | _ => decide
  toByte_ofByte := forall_byte (by decide +kernel)
  declared_iff := forall_byte (by decide +kernel)

def Movability.all : List Movability :=
  [.movable, .pinned, .nonmovable]

instance instByteEnumMovability : ByteEnum Movability where
  enumerators := Movability.all
  toByte
    | .undeclared b _ => b
    | e => position Movability.all e
  ofByte b := if h : 3 ≤ b then .undeclared b h else Movability.all.getD b.toNat .movable
  ofByte_toByte e := by
    cases e with
    | undeclared b h => simp [h]
    | _ => decide
  toByte_ofByte := forall_byte (by decide +kernel)
  declared_iff := forall_byte (by decide +kernel)

end GpuMemoryService
