/-
GpuMemoryService.Registration — a worker joins the coordinator
(`worker.cpp`, `coordinator.cpp`).

A worker process draws its boot from its process id and the tick counter
(`fresh_boot`), connects and sends three frames. The coordinator reads them
one by one and closes the connection at the first that does not come or is
too short (`readHandshake`).

`registered_exactly`: the worker becomes the registered one, under its own
boot, exactly if the three frames have arrived to their last byte; from a
handshake that breaks off anywhere before nothing is left but a closed
connection. `fleet_boots_distinct`: workers that differ in process id or in
the low half of the tick are registered under different boots, in any order
of joining, dying and controller requests.
-/
import GpuMemoryService.CoordinatorTheorems
import GpuMemoryService.PayloadCodec
import GpuMemoryService.Transport

namespace GpuMemoryService

open Lib Mp Net

namespace Mp

def packU8 (v : UInt8) : Bytes := appendU8 [] v

end Mp

/-! ## The worker's side -/

namespace Worker

/-- `fresh_boot`: the process id above the low half of the tick counter. -/
def freshBoot (pid : UInt32) (tick : UInt64) : UInt64 :=
  (pid.toUInt64 <<< 32) ||| (tick &&& 0xFFFFFFFF)

theorem freshBoot_toNat (pid : UInt32) (tick : UInt64) :
    (freshBoot pid tick).toNat = pid.toNat * 2 ^ 32 + tick.toNat % 2 ^ 32 := by
  have hp := pid.toNat_lt
  have hmask : (0xFFFFFFFF : UInt64).toNat = 2 ^ 32 - 1 := rfl
  have hlow : tick.toNat % 2 ^ 32 < 2 ^ 32 := Nat.mod_lt _ (by decide)
  have hshift : (pid.toUInt64 <<< 32).toNat = pid.toNat <<< 32 := by
    rw [UInt64.toNat_shiftLeft, UInt32.toNat_toUInt64]
    show pid.toNat <<< 32 % 2 ^ 64 = _
    rw [Nat.shiftLeft_eq, Nat.mod_eq_of_lt (by omega)]
  rw [freshBoot, UInt64.toNat_or, UInt64.toNat_and, hshift, hmask, Nat.and_two_pow_sub_one_eq_mod,
    ← Nat.shiftLeft_add_eq_or_of_lt hlow, Nat.shiftLeft_eq]

/-- Two boots are the same exactly if the process ids and the low halves of
the ticks are. -/
theorem freshBoot_inj {pid pid' : UInt32} {tick tick' : UInt64} :
    freshBoot pid tick = freshBoot pid' tick' ↔ pid = pid' ∧ tick.toUInt32 = tick'.toUInt32 := by
  rw [← UInt64.toNat_inj, freshBoot_toNat, freshBoot_toNat, ← UInt32.toNat_inj, ← UInt32.toNat_inj,
    UInt64.toNat_toUInt32, UInt64.toNat_toUInt32]
  omega

/-- What a worker process starts with: its name, its process id and tick,
and what the device reports. -/
structure Start where
  name : Bytes
  pid : UInt32
  tick : UInt64
  freeb : UInt64
  totalb : UInt64
  device : Bytes
deriving DecidableEq, Repr

namespace Start

def boot (w : Start) : UInt64 := freshBoot w.pid w.tick

def registerPayload (w : Start) : Bytes :=
  appendU64 (appendU64 (appendStr [] w.name) w.boot) w.pid.toUInt64

def capacityPayload (w : Start) : Bytes :=
  appendStr (appendU64 (appendU64 [] w.freeb) w.totalb) w.device

/-- The frames a worker sends before its message loop. -/
def frames (w : Start) : List Frame :=
  [⟨.hello, packU8 2⟩, ⟨.register, w.registerPayload⟩, ⟨.publishCapacity, w.capacityPayload⟩]

/-- Name and device name leave room for the rest of their frames. -/
structure Short (w : Start) : Prop where
  name : 20 + w.name.length ≤ kMaxFrame.toNat
  device : 20 + w.device.length ≤ kMaxFrame.toNat

theorem Short.frames {w : Start} (h : w.Short) :
    ∀ f ∈ w.frames, f.payload.length ≤ kMaxFrame.toNat := by
  intro f hf
  simp only [Start.frames, List.mem_cons, List.not_mem_nil, or_false] at hf
  rcases hf with rfl | rfl | rfl
  · decide
  · refine le_trans (le_of_eq ?_) h.name
    simp [registerPayload, appendU64, appendStr, appendU32]
    omega
  · refine le_trans (le_of_eq ?_) h.device
    simp [capacityPayload, appendU64, appendStr, appendU32]
    omega

end Start

end Worker

/-! ## The coordinator's side -/

namespace Coordinator

/-- The boot in a REGISTER frame, unless the frame does not come or is too
short. -/
def registerBoot (reg : Option Frame) : Option UInt64 := registration reg (some {})

/-- The frames of a new connection, each read only after the one before it
has passed its checks. -/
def readHandshake (conn : Conn) (s : Socket) : Handshake × Socket :=
  let (hello, s) := recvFrame s
  if role hello = some 2 then
    let (reg, s) := recvFrame s
    if (registerBoot reg).isSome then
      let (cap, s) := recvFrame s
      ({ conn, hello, reg, cap }, s)
    else ({ conn, hello, reg }, s)
  else ({ conn, hello }, s)

theorem registration_eq (reg cap : Option Frame) :
    registration reg cap = (registerBoot reg).bind (fun boot => cap.map (fun _ => boot)) := by
  unfold registerBoot registration
  cases reg with
  | none => rfl
  | some reg =>
      cases h1 : takeStr reg.payload 0 with
      | none => simp [h1]
      | some a =>
          cases h2 : takeU64 reg.payload a.2 with
          | none => simp [h1, h2]
          | some b =>
              cases h3 : takeU64 reg.payload b.2 <;> cases cap <;> simp [h1, h2, h3]

/-- A worker's REGISTER frame carries its boot. -/
theorem registerBoot_register {w : Worker.Start} (h : w.Short) :
    registerBoot (some ⟨.register, w.registerPayload⟩) = some w.boot := by
  have hname := h.name
  set b := w.registerPayload with hb
  have hbytes : b = (Field.str w.name).bytes ++ (putU64 w.boot ++ putU64 w.pid.toUInt64) := by
    simp [hb, Worker.Start.registerPayload, Field.bytes_str, appendU64, appendStr, appendU32]
  have hlen : (Field.str w.name).bytes.length = 4 + w.name.length := by
    simp [Field.bytes_str]
  have h1 : takeStr b 0 = some (w.name, 4 + w.name.length) := by
    refine takeStr_iff.mpr ⟨by omega, by omega, ?_⟩
    rw [hbytes]
    exact List.prefix_append _ _
  have h2 : takeU64 b (4 + w.name.length) = some (w.boot, 4 + w.name.length + 8) := by
    refine takeU64_iff.mpr ⟨rfl, ?_⟩
    rw [hbytes, List.drop_left' hlen]
    exact List.prefix_append _ _
  have h3 : takeU64 b (4 + w.name.length + 8) = some (w.pid.toUInt64, 4 + w.name.length + 8 + 8) := by
    have hrest : b.drop (4 + w.name.length + 8) = putU64 w.pid.toUInt64 := by
      rw [hbytes, ← List.drop_drop, List.drop_left' hlen, List.drop_left' (length_putU64 _)]
    exact takeU64_iff.mpr ⟨rfl, hrest ▸ List.prefix_refl _⟩
  simp [registerBoot, registration, h1, h2, h3]

/-- Reading lazily makes no difference to what is accepted. -/
theorem accept_readHandshake (c : Coordinator) (conn : Conn) (s : Socket)
    {hello reg cap : Option Frame} (h : (recvFrames 3 s).1 = [hello, reg, cap]) :
    c.accept (readHandshake conn s).1 = c.accept { conn, hello, reg, cap } := by
  obtain ⟨rfl, rfl, rfl⟩ : (recvFrame s).1 = hello ∧ (recvFrame (recvFrame s).2).1 = reg ∧
      (recvFrame (recvFrame (recvFrame s).2).2).1 = cap := by
    simpa [recvFrames_succ, recvFrames] using h
  unfold readHandshake accept
  by_cases hrole : role (recvFrame s).1 = some 2
  · simp only [hrole, if_true]
    cases hboot : registerBoot (recvFrame (recvFrame s).2).1 with
    | none => simp [hrole, registration_eq, hboot]
    | some boot => simp [hrole]
  · simp only [hrole, if_false]
    cases hr : role (recvFrame s).1 with
    | none => simp
    | some r =>
        have hne : r ≠ 2 := fun h2 => hrole (by rw [hr, h2])
        simp [hne]

theorem role_hello : role (some ⟨.hello, packU8 2⟩) = some 2 := by decide

/-- A whole handshake is read off the stream, and registers the worker. -/
theorem readHandshake_whole {w : Worker.Start} (hw : w.Short) (c : Coordinator) (conn : Conn)
    {s : Socket} {tail : Bytes} (hs : s.contents = wireOf w.frames ++ tail) :
    c.accept (readHandshake conn s).1
        = (c.worker.toList.map .close, { c with worker := some conn, workerBoot := w.boot }) ∧
      (readHandshake conn s).2.contents = tail := by
  obtain ⟨hframes, hrest⟩ := recvFrames_front hw.frames hs
  have hrole := role_hello
  have hboot := registerBoot_register hw
  constructor
  · rw [accept_readHandshake c conn s hframes]
    simp [accept, hrole, registration_eq, hboot]
  · simp only [Worker.Start.frames, List.length_cons, List.length_nil, Nat.zero_add, Nat.reduceAdd,
      recvFrames_succ, List.map_cons, List.cons.injEq] at hframes hrest
    obtain ⟨h1, h2, _⟩ := hframes
    simp only [readHandshake, h1, h2, hrole, if_true, hboot, Option.isSome_some]
    exact hrest

/-- Of a handshake that breaks off nothing is accepted. -/
theorem readHandshake_cut {w : Worker.Start} (hw : w.Short) (c : Coordinator) (conn : Conn)
    {s : Socket} (hfront : s.contents <+: wireOf w.frames) (hcut : ¬ wireOf w.frames <+: s.contents) :
    c.accept (readHandshake conn s).1 = ([.close conn], c) := by
  rw [← List.append_nil (wireOf w.frames)] at hfront
  obtain ⟨j, v, hj, hv, heq, _⟩ := prefix_wire_cases (Torn.clean []) hfront
  have hlt : j < 3 := by
    refine lt_of_le_of_ne hj (fun h3 => hcut ?_)
    rw [heq, h3]
    exact List.prefix_append _ _
  have hframes := recvFrames_wire hv (fun f hf => hw.frames f (List.mem_of_mem_take hf))
    (fun f hf => hw.frames f (List.mem_of_mem_drop (by simpa using hf))) heq 3
  have hrole := role_hello
  obtain rfl | rfl | rfl : j = 0 ∨ j = 1 ∨ j = 2 := by omega
  · rw [accept_readHandshake c conn s hframes]
    rfl
  · rw [accept_readHandshake c conn s hframes]
    simp [accept, hrole, registration]
  · rw [accept_readHandshake c conn s hframes]
    simp [accept, hrole, registration_eq]

/-- **A worker is registered exactly if its whole handshake has arrived.**
Its names fit a frame; it sends its handshake and then any other frames, with any failure of the
connection, and any front of that arrives, in any chunks. If the handshake
arrived to its last byte, the worker is registered under its boot in the
place of the one before, and the stream stands at the frame behind; else the
connection is closed, and nothing else has changed. -/
theorem registered_exactly {c : Coordinator} (hrun : c.stopped = false) (conn : Conn)
    {w : Worker.Start} (hw : w.Short) (later : List Frame) (tx : Sender) (rx : Socket)
    (hwire : rx.contents <+: (sendFrames tx (w.frames ++ later)).1.2) :
    (wireOf w.frames <+: rx.contents ∧
      c.step (.accept (readHandshake conn rx).1)
        = (c.worker.toList.map .close, { c with worker := some conn, workerBoot := w.boot }) ∧
      rx.contents = wireOf w.frames ++ (readHandshake conn rx).2.contents) ∨
    (¬ wireOf w.frames <+: rx.contents ∧
      c.step (.accept (readHandshake conn rx).1) = ([.close conn], c)) := by
  have hstep : ∀ hs, c.step (.accept hs) = c.accept hs := fun hs => by simp [step, hrun]
  have hfront : rx.contents <+: wireOf w.frames ++ wireOf later := by
    rw [← wireOf_append]
    exact hwire.trans (sendFrames_wire_front tx _)
  by_cases hwhole : wireOf w.frames <+: rx.contents
  · obtain ⟨tail, htail⟩ := hwhole
    obtain ⟨haccept, hrest⟩ := readHandshake_whole hw c conn htail.symm
    rw [hstep, haccept, hrest, htail]
    exact Or.inl ⟨⟨tail, htail⟩, rfl, rfl⟩
  · have hshort : rx.contents <+: wireOf w.frames :=
      (List.prefix_or_prefix_of_prefix hfront (List.prefix_append _ _)).resolve_right hwhole
    rw [hstep, readHandshake_cut hw c conn hshort hwhole]
    exact Or.inr ⟨hwhole, rfl⟩

/-- A worker process of the given id and tick. -/
def plainStart (pid : UInt32) (tick : UInt64) : Worker.Start :=
  { name := ascii "w", pid, tick, freeb := 4096, totalb := 8192, device := ascii "gpu" }

/-- Whatever a connection that takes the `accepts` lets through of a worker's
handshake. -/
def arriving (w : Worker.Start) (tx : Sender) : Socket :=
  .unread (sendFrames tx (w.frames ++ [])).1.2 ⟨[], by simp⟩

theorem arriving_contents (w : Worker.Start) (tx : Sender) :
    (arriving w tx).contents <+: (sendFrames tx (w.frames ++ [])).1.2 := by
  rw [arriving, Socket.contents_unread]
  exact (List.append_nil _) ▸ List.prefix_refl _

theorem plainStart_short (pid : UInt32) (tick : UInt64) : (plainStart pid tick).Short where
  name := show 20 + (ascii "w").length ≤ kMaxFrame.toNat by decide
  device := show 20 + (ascii "gpu").length ≤ kMaxFrame.toNat by decide

/-- A worker whose connection takes fifty bytes and is gone. -/
theorem cut_worker_closed :
    let tx : Sender := ⟨[20, 30], by decide⟩
    (plainStart 7 5).Short ∧
      ¬ wireOf (plainStart 7 5).frames <+: (arriving (plainStart 7 5) tx).contents ∧
      ({} : Coordinator).step (.accept (readHandshake 1 (arriving (plainStart 7 5) tx)).1)
        = ([.close 1], {}) := by
  intro tx
  have hcut : ¬ wireOf (plainStart 7 5).frames <+: (arriving (plainStart 7 5) tx).contents := by
    decide +kernel
  refine ⟨plainStart_short 7 5, hcut, ?_⟩
  rcases registered_exactly (c := {}) rfl 1 (plainStart_short 7 5) [] tx _ (arriving_contents _ _)
    with ⟨hwhole, _⟩ | ⟨_, hstep⟩
  · exact absurd hwhole hcut
  · exact hstep

/-! ## A fleet of workers -/

theorem readHandshake_conn (conn : Conn) (s : Socket) : (readHandshake conn s).1.conn = conn := by
  simp only [readHandshake]
  split
  · split <;> rfl
  · rfl

/-- A handshake that registers a worker does so in a coordinator without one. -/
theorem accept_of_registers {c : Coordinator} {hs : Handshake} {r : Conn × UInt64}
    (h : c.registers (.accept hs) = some r) :
    r.1 = hs.conn ∧
      ({} : Coordinator).step (.accept hs) = ([], { worker := some hs.conn, workerBoot := r.2 }) := by
  simp only [registers] at h
  split at h
  · rename_i hrole
    obtain ⟨boot, hboot, rfl⟩ := Option.map_eq_some_iff.mp h
    exact ⟨rfl, by simp [step, accept, hrole.2, hboot]⟩
  · cases h

/-- An event of the coordinator with where it comes from: a worker process
whose handshake arrives as `rx`, or anything that is no worker. -/
inductive Arrival where
  | worker (conn : Conn) (w : Worker.Start) (rx : Socket)
  | other (e : Event)

namespace Arrival

def event : Arrival → Event
  | worker conn _ rx => .accept (readHandshake conn rx).1
  | other e => e

/-- The bytes of a worker come from a process running the worker program,
and what is no worker does not say it is one. -/
def Sound : Arrival → Prop
  | worker _ w rx =>
      w.Short ∧ ∃ later tx, rx.contents <+: (sendFrames tx (w.frames ++ later)).1.2
  | other e => ∀ hs, e = .accept hs → role hs.hello ≠ some 2

/-- Process id and low half of the tick of a worker. -/
def process : Arrival → Option (UInt32 × UInt32)
  | worker _ w _ => some (w.pid, w.tick.toUInt32)
  | other _ => none

/-- The registration a worker asks for. -/
def asked : Arrival → Option (Conn × UInt64)
  | worker conn w _ => some (conn, w.boot)
  | other _ => none

/-- An arrival registers what it asks for, or nothing. -/
theorem registers_event {a : Arrival} (h : a.Sound) (c : Coordinator) :
    c.registers a.event = none ∨ c.registers a.event = a.asked := by
  cases a with
  | other e =>
      refine Or.inl ?_
      cases e with
      | request frame answer => rfl
      | accept hs => simp [event, registers, h hs rfl]
  | worker conn w rx =>
      obtain ⟨hw, later, tx, hwire⟩ := h
      cases hreg : c.registers (.accept (readHandshake conn rx).1) with
      | none => exact Or.inl hreg
      | some r =>
          refine Or.inr (hreg.trans ?_)
          -- what a coordinator without a worker makes of the same handshake
          obtain ⟨hconn, haccept⟩ := accept_of_registers hreg
          rw [readHandshake_conn] at hconn haccept
          rcases registered_exactly (c := {}) rfl conn hw later tx rx hwire with
            ⟨_, hstep, _⟩ | ⟨_, hstep⟩
          · have hboot := congrArg (fun o => o.2.workerBoot) (haccept.symm.trans hstep)
            exact congrArg some (Prod.ext hconn hboot)
          · cases haccept.symm.trans hstep

end Arrival

theorem registrations_sublist (arrivals : List Arrival) (hsound : ∀ a ∈ arrivals, a.Sound)
    (c : Coordinator) :
    (registrations (trace watch c (arrivals.map Arrival.event))).Sublist
      (arrivals.filterMap Arrival.asked) := by
  induction arrivals generalizing c with
  | nil => exact List.Sublist.refl _
  | cons a arrivals ih =>
      have hrest := ih (fun b hb => hsound b (by simp [hb])) (watch c a.event).2
      simp only [registrations, List.map_cons, trace, List.filterMap_cons, watch] at hrest ⊢
      rcases Arrival.registers_event (hsound a (by simp)) c with hnone | hasked
      · rw [hnone]
        cases a.asked with
        | none => exact hrest
        | some r => exact hrest.cons r
      · rw [hasked]
        cases a.asked with
        | none => exact hrest
        | some r => exact hrest.cons_cons r

/-- The boot of a process. -/
def processBoot (p : UInt32 × UInt32) : UInt64 := Worker.freshBoot p.1 p.2.toUInt64

theorem processBoot_injective : Function.Injective processBoot := by
  rintro ⟨pid, low⟩ ⟨pid', low'⟩ h
  obtain ⟨hpid, hlow⟩ := Worker.freshBoot_inj.mp h
  simp only [UInt32.toUInt32_toUInt64] at hlow
  exact Prod.ext hpid hlow

theorem asked_boot (a : Arrival) : a.asked.map (·.2) = a.process.map processBoot := by
  cases a with
  | other e => rfl
  | worker conn w rx =>
      exact congrArg some (Worker.freshBoot_inj.mpr ⟨rfl, (UInt32.toUInt32_toUInt64 _).symm⟩)

/-- **Boots of a fleet.** In every run made of worker processes (whose names
fit a frame) joining over broken or whole connections, controllers and their
requests, the workers that were registered are among those that joined, in
that order and each under its own boot; and if the processes differ in their ids or in the low
half of their ticks, no two were registered under the same boot. -/
theorem fleet_boots_distinct (arrivals : List Arrival) (hsound : ∀ a ∈ arrivals, a.Sound) :
    (registrations (trace watch {} (arrivals.map Arrival.event))).Sublist
        (arrivals.filterMap Arrival.asked) ∧
      ((arrivals.filterMap Arrival.process).Nodup →
        ((registrations (trace watch {} (arrivals.map Arrival.event))).map (·.2)).Nodup) := by
  have hsub := registrations_sublist arrivals hsound {}
  have hboots : (arrivals.filterMap Arrival.asked).map (·.2)
      = (arrivals.filterMap Arrival.process).map processBoot := by
    simp only [List.map_filterMap, asked_boot]
  refine ⟨hsub, fun hprocesses => (hsub.map _).nodup ?_⟩
  rw [hboots]
  exact hprocesses.map processBoot_injective

/-- Two workers of one process id, a controller between them; the second
worker's connection breaks off. -/
def smallFleet : List Arrival :=
  [.worker 1 (plainStart 7 5) (arriving (plainStart 7 5) ⟨[500], by decide⟩),
   .other (controllerJoins 2),
   .worker 3 (plainStart 7 6) (arriving (plainStart 7 6) ⟨[20, 30], by decide⟩)]

theorem fleet_boots_distinct_smallFleet :
    (smallFleet.filterMap Arrival.process).Nodup ∧
      ((registrations (trace watch {} (smallFleet.map Arrival.event))).map (·.2)).Nodup := by
  have hprocesses : (smallFleet.filterMap Arrival.process).Nodup := by decide
  refine ⟨hprocesses, (fleet_boots_distinct smallFleet ?_).2 hprocesses⟩
  simp only [smallFleet, List.forall_mem_cons]
  refine ⟨⟨plainStart_short 7 5, [], _, arriving_contents _ _⟩, ?_,
    ⟨plainStart_short 7 6, [], _, arriving_contents _ _⟩, by simp⟩
  rintro hs ⟨⟩
  decide

end Coordinator

end GpuMemoryService
