/-
GpuMemoryService.Deployment — one coordinator and one live worker, and the
bytes between them.

A controller request is handled up to the point where the coordinator waits
(`Coordinator.begin`), the worker takes a turn of its loop when there are
bytes to read (`Worker.step`), and the coordinator goes on when there are
bytes to read (`Coordinator.finish`). In between the frames are on two
streams, as `send_frame` wrote them. Requests, turns and answers come in
any order; one that finds nothing to do, or a coordinator that waits for
the worker, changes nothing, as a blocked call does.

`agreement`: what the coordinator takes for current and what the worker
holds. They part at two places only. The worker drops what a RELEASE names
and the coordinator keeps its entry, and a failed ALLOCATE of an id the
worker holds is no longer current at the coordinator and stays at the
worker (`Safe`).
-/
import GpuMemoryService.CoordinatorTheorems
import GpuMemoryService.Net

namespace GpuMemoryService

open Lib Mp

/-! ## Payloads read back -/

theorem fieldU64_of_starts {b : Bytes} {p : Nat} {v : UInt64} (h : putU64 v <+: b.drop p) :
    fieldU64 b p = (v, p + 8) := by
  rw [fieldU64, takeU64_iff.mpr ⟨rfl, h⟩]
  rfl

theorem fieldU32_of_starts {b : Bytes} {p : Nat} {v : UInt32} (h : putU32 v <+: b.drop p) :
    fieldU32 b p = (v, p + 4) := by
  rw [fieldU32, takeU32_iff.mpr ⟨rfl, h⟩]
  rfl

/-- The first two fields of a payload, and where the rest stands. -/
theorem leading_fields (a b : UInt64) (l : Bytes) :
    fieldU64 (putU64 a ++ (putU64 b ++ l)) 0 = (a, 8) ∧
    fieldU64 (putU64 a ++ (putU64 b ++ l)) 8 = (b, 16) ∧
    (putU64 a ++ (putU64 b ++ l)).drop 16 = l := by
  have h8 : (putU64 a ++ (putU64 b ++ l)).drop 8 = putU64 b ++ l := List.drop_left' (length_putU64 a)
  refine ⟨fieldU64_of_starts (List.prefix_append _ _), fieldU64_of_starts ?_, ?_⟩
  · rw [h8]
    exact List.prefix_append _ _
  · rw [show 16 = 8 + 8 from rfl, ← List.drop_drop, h8]
    exact List.drop_left' (length_putU64 b)

@[simp] theorem readTriple_triple (a b c : UInt64) : readTriple (triple a b c) = (a, b, c) := by
  have hshape : triple a b c = putU64 a ++ (putU64 b ++ putU64 c) := by simp [triple, appendU64]
  obtain ⟨h0, h8, h16⟩ := leading_fields a b (putU64 c)
  have hlast : fieldU64 (putU64 a ++ (putU64 b ++ putU64 c)) 16 = (c, 24) :=
    fieldU64_of_starts (h16 ▸ List.prefix_refl _)
  simp only [readTriple, hshape, h0, h8, hlast]

@[simp] theorem readResult_status (id gen : UInt64) (status : UInt32) (e : Bytes) :
    (readResult (resultPayload id gen status e)).1 = status := by
  have hshape : resultPayload id gen status e
      = putU64 id ++ (putU64 gen ++ (putU32 status ++ (putU32 (UInt32.ofNat e.length) ++ e))) := by
    simp [resultPayload, appendStr, appendU32, appendU64]
  obtain ⟨h0, h8, h16⟩ :=
    leading_fields id gen (putU32 status ++ (putU32 (UInt32.ofNat e.length) ++ e))
  have hlast := fieldU32_of_starts (p := 16) (v := status)
    (by rw [h16]; exact List.prefix_append _ _)
  simp only [readResult, hshape, h0, h8, hlast]

theorem length_triple (a b c : UInt64) : (triple a b c).length = 24 := by
  simp [triple, appendU64]

theorem length_resultPayload (id gen : UInt64) (status : UInt32) (e : Bytes) :
    (resultPayload id gen status e).length = 24 + e.length := by
  simp [resultPayload, appendStr, appendU32, appendU64]
  omega

/-! ## Sides of the account -/

/-- Generation and bytes of the entries that are current at the registered
worker. -/
def Coordinator.granted (c : Coordinator) : OrdMap UInt64 (UInt64 × UInt64) :=
  (c.gAlloc.restrict (fun a => a.current && a.boot == c.workerBoot)).mapValues
    (fun a => (a.gen, a.bytes))

/-- Generation and bytes of what the worker holds. -/
def Worker.held (w : Worker) : OrdMap UInt64 (UInt64 × UInt64) :=
  w.allocs.mapValues (fun a => (a.gen, a.bytes))

/-- The bytes and the number of allocations, in the words of a payload. -/
def totals (m : OrdMap UInt64 (UInt64 × UInt64)) : UInt64 × UInt64 :=
  (UInt64.ofNat (m.weigh (fun _ v => v.2.toNat)), UInt64.ofNat m.size)

/-- Every entry is of the registered worker. -/
def Coordinator.OneBoot (c : Coordinator) : Prop :=
  ∀ id a, c.gAlloc.find? id = some a → a.boot = c.workerBoot

theorem Coordinator.find?_granted (c : Coordinator) (id : UInt64) :
    c.granted.find? id =
      ((c.gAlloc.find? id).filter (fun a => a.current && a.boot == c.workerBoot)).map
        (fun a => (a.gen, a.bytes)) := by
  rw [granted, OrdMap.find?_mapValues]
  congr 1
  refine Option.ext (fun a => ?_)
  rw [OrdMap.find?_restrict, Option.filter_eq_some_iff]

theorem Worker.find?_held (w : Worker) (id : UInt64) :
    w.held.find? id = (w.allocs.find? id).map (fun a => (a.gen, a.bytes)) :=
  OrdMap.find?_mapValues _ _ _

/-- QUERY counts what is current at the one worker. -/
theorem Coordinator.tally_eq_totals {c : Coordinator} (h : c.OneBoot) : c.tally = totals c.granted := by
  have hfold : ∀ (l : List (UInt64 × AllocState)) (acc : UInt64 × UInt64),
      (∀ e ∈ l, e.2.boot = c.workerBoot) →
      l.foldl (fun acc e => if e.2.current then (acc.1 + e.2.bytes, acc.2 + 1) else acc) acc =
        (acc.1 + UInt64.ofNat ((((l.filter (fun e => e.2.current && e.2.boot == c.workerBoot)).map
            (fun e => (e.1, e.2.gen, e.2.bytes))).map (fun e => e.2.2.toNat)).sum),
          acc.2 + UInt64.ofNat ((l.filter (fun e => e.2.current && e.2.boot == c.workerBoot)).map
            (fun e => (e.1, e.2.gen, e.2.bytes))).length) := by
    intro l
    induction l with
    | nil => intro acc _; simp
    | cons e l ih =>
        intro acc hboot
        have hhead : e.2.boot = c.workerBoot := hboot e (by simp)
        rw [List.foldl_cons, ih _ (fun d hd => hboot d (by simp [hd]))]
        cases hcur : e.2.current with
        | true => simp [hcur, hhead, UInt64.ofNat_add, UInt64.add_assoc, UInt64.add_comm 1]
        | false => simp [hcur]
  have hall : ∀ e ∈ c.gAlloc.entries, e.2.boot = c.workerBoot :=
    fun e he => h e.1 e.2 (OrdMap.find?_eq_some_iff.mpr he)
  have htally : c.tally = c.gAlloc.entries.foldl
      (fun acc e => if e.2.current then (acc.1 + e.2.bytes, acc.2 + 1) else acc) (0, 0) := rfl
  rw [htally, hfold _ _ hall]
  simp [totals, granted, OrdMap.weigh, OrdMap.size, OrdMap.mapValues, OrdMap.restrict]

/-! ## The system -/

/-- What the controller asks for. -/
inductive Request where
  | allocate (id gen bytes : UInt64)
  | release (id gen boot : UInt64)
  | query
deriving DecidableEq, Repr

def Request.frame : Request → Frame
  | .allocate id gen bytes => ⟨.allocate, triple id gen bytes⟩
  | .release id gen boot => ⟨.release, triple id gen boot⟩
  | .query => ⟨.query, [0]⟩

/-- What `cudaGetErrorString` returns: a text that fits a frame. -/
structure CudaError where
  text : Bytes
  fits : 24 + text.length ≤ kMaxFrame.toNat

structure Deployment where
  coord : Coordinator
  /-- the request whose answer the coordinator waits for -/
  pending : Option Pending := none
  toWorker : Bytes := []
  fromWorker : Bytes := []
  worker : Worker := {}
deriving DecidableEq

namespace Deployment

inductive Event where
  | request (r : Request)
  | work (cuda : Except CudaError UInt64)
  | answer

/-- What `send_frame` writes on the socket `conn`. -/
def written (conn : Option Conn) : Out → Bytes
  | .send dest type payload => if dest = conn then encode type payload else []
  | .close _ => []

def step (s : Deployment) : Event → List Out × Deployment
  | .request r =>
      match s.pending, s.coord.ctrl with
      | none, some ctrl =>
          let (out, coord, pending) := s.coord.begin ctrl r.frame
          (out, { s with
            coord, pending, toWorker := s.toWorker ++ out.flatMap (written s.coord.worker) })
      | _, _ => ([], s)
  | .work cuda =>
      if s.toWorker = [] then ([], s)
      else
        let (frame, rest) := Net.frameAt s.toWorker
        let (turn, worker) := s.worker.step ⟨frame, cuda.mapError (·.text)⟩
        let reply := turn.sent.elim [] (fun f => encode f.type f.payload)
        ([], { s with worker, toWorker := rest, fromWorker := s.fromWorker ++ reply })
  | .answer =>
      match s.pending, s.coord.ctrl with
      | some p, some ctrl =>
          if s.fromWorker = [] then ([], s)
          else
            let (frame, rest) := Net.frameAt s.fromWorker
            let (out, coord) := s.coord.finish ctrl p frame
            (out, { s with coord, pending := none, fromWorker := rest })
      | _, _ => ([], s)

/-- A worker with that boot and a controller are connected. -/
def start (boot : UInt64) : Deployment :=
  { coord := { ctrl := some 2, worker := some 1, workerBoot := boot } }

section Handshake

open Coordinator (registration role accept workerJoins controllerJoins)

theorem registration_joins (boot : UInt64) :
    registration (some ⟨.register, appendU64 (appendU64 (appendStr [] (ascii "w")) boot) 1⟩)
      (some ⟨.publishCapacity, []⟩) = some boot := by
  have hshape : appendU64 (appendU64 (appendStr [] (ascii "w")) boot) 1
      = putU32 1 ++ (ascii "w" ++ (putU64 boot ++ putU64 1)) := by
    simp [appendU64, appendStr, appendU32, ascii]
  have hlen : (putU32 1 ++ (ascii "w" ++ (putU64 boot ++ putU64 1))).length = 21 := by
    simp [ascii]
  have hcount : takeU32 (putU32 1 ++ (ascii "w" ++ (putU64 boot ++ putU64 1))) 0 = some (1, 4) :=
    takeU32_iff.mpr ⟨rfl, List.prefix_append _ _⟩
  have h5 : (putU32 1 ++ (ascii "w" ++ (putU64 boot ++ putU64 1))).drop 5 = putU64 boot ++ putU64 1 := by
    rw [← List.append_assoc]
    exact List.drop_left' rfl
  have h13 : (putU32 1 ++ (ascii "w" ++ (putU64 boot ++ putU64 1))).drop 13 = putU64 1 := by
    rw [show 13 = 5 + 8 from rfl, ← List.drop_drop, h5]
    exact List.drop_left' (length_putU64 boot)
  have hname : takeStr (putU32 1 ++ (ascii "w" ++ (putU64 boot ++ putU64 1))) 0
      = some (ascii "w", 5) := by
    unfold takeStr
    refine Option.bind_eq_some_iff.mpr ⟨_, hcount, ?_⟩
    refine guard_bind_iff.mpr ⟨by decide, guard_bind_iff.mpr ⟨?_, rfl⟩⟩
    rw [hlen]
    decide
  have hboot := takeU64_iff.mpr ⟨rfl, h5 ▸ List.prefix_append (putU64 boot) (putU64 1)⟩
  have hpid := takeU64_iff.mpr ⟨rfl, h13 ▸ List.prefix_refl (putU64 1)⟩
  simp [registration, hshape, hname, hboot, hpid]

/-- Where the handshakes of the worker and the controller lead. -/
theorem start_handshake (boot : UInt64) :
    run Coordinator.step {} [workerJoins 1 boot, controllerJoins 2] = (start boot).coord := by
  have hrole : role (some ⟨.hello, [2]⟩) = some 2 := rfl
  simp only [run, workerJoins, Coordinator.step, accept, hrole, registration_joins]
  rfl

end Handshake

/-- What the coordinator takes for current is what the worker holds, and
QUERY reports it. -/
def Agrees (s : Deployment) : Prop :=
  s.coord.granted = s.worker.held ∧
  (s.step (.request .query)).1 =
    [.send s.coord.ctrl .queryResult
      (appendU64 (appendU64 [] (totals s.worker.held).1) (totals s.worker.held).2)]

/-- When a turn of the worker keeps the two sides together: an ALLOCATE
succeeds or names an id the worker does not hold, and a RELEASE names
nothing the worker holds. -/
def Safe (s : Deployment) : Event → Prop
  | .work cuda =>
      ∀ f, (Net.frameAt s.toWorker).1 = some f →
        (f.type = .allocate → cuda.isOk = true ∨ (readTriple f.payload).1 ∉ s.worker.allocs) ∧
        (f.type = .release → ∀ a, s.worker.allocs.find? (readTriple f.payload).1 = some a →
          a.gen ≠ (readTriple f.payload).2.1)
  | _ => True

instance (s : Deployment) : (e : Event) → Decidable (Safe s e)
  | .work cuda => inferInstanceAs (Decidable (∀ f ∈ (Net.frameAt s.toWorker).1,
      (f.type = .allocate → cuda.isOk = true ∨ (readTriple f.payload).1 ∉ s.worker.allocs) ∧
      (f.type = .release → ∀ a ∈ s.worker.allocs.find? (readTriple f.payload).1,
        a.gen ≠ (readTriple f.payload).2.1)))
  | .request _ => isTrue trivial
  | .answer => isTrue trivial

/-! ## Phases -/

/-- The frame a forwarded request travels in. -/
def forwardedFrame : Pending → Frame
  | .allocate id gen bytes => ⟨.allocate, triple id gen bytes⟩
  | .release id gen boot => ⟨.release, triple id gen boot⟩

/-- Where a request is: nowhere, on its way to the worker, or its answer on
the way back. -/
inductive Phase (s : Deployment) : Prop
  | idle (hp : s.pending = none) (hto : s.toWorker = []) (hfrom : s.fromWorker = [])
  | asked {p : Pending} (hp : s.pending = some p)
      (hto : s.toWorker = encode (forwardedFrame p).type (forwardedFrame p).payload)
      (hfrom : s.fromWorker = [])
  | replied {p : Pending} {f : Frame} (hp : s.pending = some p) (hto : s.toWorker = [])
      (hfrom : s.fromWorker = encode f.type f.payload)
      (htype : f.type = Coordinator.resultType p)
      (hfits : f.payload.length ≤ kMaxFrame.toNat)

/-- What holds in every state. -/
structure Wired (s : Deployment) : Prop where
  ctrl : s.coord.ctrl = some 2
  conn : s.coord.worker = some 1
  live : s.worker.exited = false
  boots : s.coord.OneBoot
  phase : Phase s

/-- The coordinator once it has read an answer that is on its way. -/
def settled (s : Deployment) : Coordinator :=
  match s.pending with
  | none => s.coord
  | some p =>
      if s.fromWorker = [] then s.coord
      else (s.coord.finish 2 p (Net.frameAt s.fromWorker).1).2

/-- The sides agree once an answer on its way has been read. -/
def Settled (s : Deployment) : Prop := s.settled.granted = s.worker.held

/-! ## A turn of the worker -/

/-- What a turn on a forwarded request sends and leaves. -/
inductive Turned (w : Worker) : Pending → Except CudaError UInt64 → Frame → Worker → Prop
  | obtained {id gen bytes ptr : UInt64} :
      Turned w (.allocate id gen bytes) (.ok ptr) ⟨.allocateResult, resultPayload id gen 0 []⟩
        { w with allocs := w.allocs.insert id ⟨gen, bytes, ptr⟩ }
  | refused {id gen bytes : UInt64} {e : CudaError} :
      Turned w (.allocate id gen bytes) (.error e)
        ⟨.allocateResult, resultPayload id gen 0xFFFFFFFF e.text⟩ w
  | freed {id gen boot : UInt64} {cuda : Except CudaError UInt64} {a : Alloc}
      (hfound : w.allocs.find? id = some a) (hgen : a.gen = gen) :
      Turned w (.release id gen boot) cuda ⟨.releaseResult, resultPayload id gen 0 []⟩
        { w with allocs := w.allocs.erase id }
  | stale {id gen boot : UInt64} {cuda : Except CudaError UInt64}
      (hstale : ∀ a, w.allocs.find? id = some a → a.gen ≠ gen) :
      Turned w (.release id gen boot) cuda
        ⟨.releaseResult, resultPayload id gen 0xFFFFFFFF (ascii "stale or unknown")⟩ w

/-- The condition on a turn, read off the request. -/
def SafeTurn (w : Worker) (cuda : Except CudaError UInt64) : Pending → Prop
  | .allocate id _ _ => cuda.isOk = true ∨ id ∉ w.allocs
  | .release id gen _ => ∀ a, w.allocs.find? id = some a → a.gen ≠ gen

section Turns

variable {w w' : Worker} {p : Pending} {cuda : Except CudaError UInt64} {f : Frame} {c : Coordinator}

theorem step_turned (hlive : w.exited = false) (p : Pending) (cuda : Except CudaError UInt64) :
    ∃ f, (w.step ⟨some (forwardedFrame p), cuda.mapError (·.text)⟩).1.sent = some f ∧
      Turned w p cuda f (w.step ⟨some (forwardedFrame p), cuda.mapError (·.text)⟩).2 := by
  obtain ⟨allocs, exited⟩ := w
  obtain rfl : exited = false := hlive
  cases p with
  | allocate id gen bytes =>
      simp only [Worker.step, forwardedFrame, Worker.allocate, readTriple_triple]
      cases cuda with
      | ok ptr => exact ⟨_, rfl, .obtained⟩
      | error e => exact ⟨_, rfl, .refused⟩
  | release id gen boot =>
      simp only [Worker.step, forwardedFrame, Worker.release, readTriple_triple, Bool.false_eq_true,
        if_false]
      cases hf : allocs.find? id with
      | none => exact ⟨_, rfl, .stale (by simp [hf])⟩
      | some a =>
          by_cases hgen : a.gen = gen
          · simp only [hgen, bne_self_eq_false, Bool.false_eq_true, if_false]
            exact ⟨_, rfl, .freed hf hgen⟩
          · simp only [bne_iff_ne, ne_eq, hgen, not_false_eq_true, if_true]
            exact ⟨_, rfl, .stale (by simp [hf, hgen])⟩

theorem Turned.live (h : Turned w p cuda f w') (hlive : w.exited = false) : w'.exited = false := by
  cases h <;> exact hlive

theorem Turned.frame (h : Turned w p cuda f w') :
    f.type = Coordinator.resultType p ∧ f.payload.length ≤ kMaxFrame.toNat := by
  cases h with
  | obtained => exact ⟨rfl, by rw [length_resultPayload]; decide⟩
  | refused =>
      rename_i e
      exact ⟨rfl, by rw [length_resultPayload]; exact e.fits⟩
  | freed => exact ⟨rfl, by rw [length_resultPayload]; decide⟩
  | stale => exact ⟨rfl, by rw [length_resultPayload]; decide⟩

theorem granted_insert {a : AllocState} {id : UInt64} (hboot : a.boot = c.workerBoot) (k : UInt64) :
    ({ c with gAlloc := c.gAlloc.insert id a } : Coordinator).granted.find? k =
      if k = id then (if a.current then some (a.gen, a.bytes) else none)
      else c.granted.find? k := by
  rw [Coordinator.find?_granted, Coordinator.find?_granted, OrdMap.find?_insert]
  by_cases hk : k = id
  · cases hcur : a.current <;> simp [hk, hcur, hboot]
  · simp [hk]

/-- After a turn and its answer the two sides agree exactly when the turn
is safe. -/
theorem Turned.agrees (h : Turned w p cuda f w') (hagree : c.granted = w.held) :
    (c.finish 2 p (some f)).2.granted = w'.held ↔ SafeTurn w cuda p := by
  have hpoint : ∀ k, c.granted.find? k = (w.allocs.find? k).map (fun a => (a.gen, a.bytes)) :=
    fun k => by rw [hagree, Worker.find?_held]
  cases h with
  | @obtained id gen bytes ptr =>
      refine iff_of_true (OrdMap.ext_find? (fun k => ?_)) (Or.inl rfl)
      rw [(Coordinator.finish_allocate_some 2 id gen bytes rfl).1, granted_insert rfl,
        Worker.find?_held, OrdMap.find?_insert, hpoint]
      by_cases hk : k = id <;> simp [hk]
  | @refused id gen bytes e =>
      rw [(Coordinator.finish_allocate_some 2 id gen bytes rfl).1]
      have hpoint' : ∀ k, ({ c with
          gAlloc := c.gAlloc.insert id ⟨id, gen, c.workerBoot, bytes, false⟩ }
            : Coordinator).granted.find? k = if k = id then none else c.granted.find? k :=
        fun k => granted_insert rfl k
      simp only [readResult_status]
      constructor
      · intro hsame
        right
        have hid := hpoint' id
        rw [show (0xFFFFFFFF == (0 : UInt32)) = false from rfl] at hsame
        rw [hsame, Worker.find?_held] at hid
        simpa [OrdMap.mem_iff_find?, Option.eq_none_iff_forall_ne_some] using hid
      · rintro (hok | hfree)
        · cases hok
        · refine OrdMap.ext_find? (fun k => ?_)
          rw [show (0xFFFFFFFF == (0 : UInt32)) = false from rfl, hpoint', Worker.find?_held, hpoint]
          by_cases hk : k = id
          · subst hk
            have hnone : w.allocs.find? k = none := by
              simpa [OrdMap.mem_iff_find?, Option.eq_none_iff_forall_ne_some] using hfree
            simp [hnone]
          · simp [hk]
  | @freed id gen boot cuda a hfound hgen =>
      refine iff_of_false (fun hsame => ?_) (fun hsafe => hsafe a hfound hgen)
      have hid := congrArg (fun m => OrdMap.find? m id) hsame
      rw [show (c.finish 2 (.release id gen boot) _).2 = c from rfl] at hid
      simp [hpoint, Worker.find?_held, hfound] at hid
  | stale hstale => exact iff_of_true hagree hstale

end Turns

/-! ## Steps -/

section Steps

variable {s : Deployment}

theorem frameAt_encode {f : Frame} (h : f.payload.length ≤ kMaxFrame.toNat) :
    Net.frameAt (encode f.type f.payload) = (some f, []) := by
  rw [Net.frameAt_of_decode (decode_of_encoded h (List.prefix_refl _)), List.drop_of_length_le]
  rw [length_encode]

theorem forwardedFrame_fits (p : Pending) : (forwardedFrame p).payload.length ≤ kMaxFrame.toNat := by
  cases p <;> exact (length_triple _ _ _).le.trans (by decide)

/-- A request is answered at once or forwarded. -/
theorem begin_request {c : Coordinator} (hconn : c.worker = some 1) (r : Request) :
    (∃ out, c.begin 2 r.frame = (out, c, none) ∧ out.flatMap (written c.worker) = []) ∨
    ∃ p, c.begin 2 r.frame =
      ([.send c.worker (forwardedFrame p).type (forwardedFrame p).payload], c, some p) := by
  have hother : ∀ type payload, [Out.send (some 2) type payload].flatMap (written c.worker) = [] := by
    simp [written, hconn]
  cases r with
  | allocate id gen bytes =>
      simp only [Coordinator.begin, Request.frame, readTriple_triple]
      split
      · exact Or.inl ⟨_, rfl, hother _ _⟩
      · exact Or.inr ⟨.allocate id gen bytes, rfl⟩
  | release id gen boot =>
      simp only [Coordinator.begin, Request.frame, readTriple_triple]
      split
      · exact Or.inl ⟨_, rfl, hother _ _⟩
      · split
        · exact Or.inl ⟨_, rfl, hother _ _⟩
        · exact Or.inr ⟨.release id gen boot, rfl⟩
  | query => exact Or.inl ⟨_, rfl, hother _ _⟩

/-- What a step can do. -/
inductive Moved (s : Deployment) : Event → Deployment → Prop
  | quiet {e : Event} (hsafe : Safe s e) : Moved s e s
  | asked {r : Request} (p : Pending) (hp : s.pending = none) (hfrom : s.fromWorker = []) :
      Moved s (.request r)
        { s with
          pending := some p
          toWorker := encode (forwardedFrame p).type (forwardedFrame p).payload }
  | turned {p : Pending} {cuda : Except CudaError UInt64} {f : Frame} {w : Worker}
      (hp : s.pending = some p) (hfrom : s.fromWorker = [])
      (hturn : Turned s.worker p cuda f w) (hsafe : Safe s (.work cuda) ↔ SafeTurn s.worker cuda p) :
      Moved s (.work cuda)
        { s with worker := w, toWorker := [], fromWorker := encode f.type f.payload }
  | answered {p : Pending} {f : Frame} (hp : s.pending = some p) (hto : s.toWorker = [])
      (hfrom : s.fromWorker = encode f.type f.payload) (htype : f.type = Coordinator.resultType p)
      (hfits : f.payload.length ≤ kMaxFrame.toNat) :
      Moved s .answer
        { s with coord := (s.coord.finish 2 p (some f)).2, pending := none, fromWorker := [] }

theorem safe_of_blocked (h : s.toWorker = []) (cuda : Except CudaError UInt64) :
    Safe s (.work cuda) := by
  intro f hf
  rw [h] at hf
  cases hf

/-- **Every step** of a wired deployment. -/
theorem step_moved (h : Wired s) (e : Event) : Moved s e (s.step e).2 := by
  cases e with
  | request r =>
      cases h.phase with
      | idle hp hto hfrom =>
          simp only [step, hp, h.ctrl]
          rcases begin_request h.conn r with ⟨out, hbegin, hnone⟩ | ⟨p, hbegin⟩
          · rw [hbegin]
            dsimp only
            rw [hnone, List.append_nil, ← hp]
            exact .quiet trivial
          · rw [hbegin]
            dsimp only
            rw [hto]
            simp only [List.flatMap_singleton, written, if_true, List.nil_append]
            exact .asked p hp hfrom
      | asked hp _ _ =>
          simp only [step, hp]
          exact .quiet trivial
      | replied hp _ _ _ _ =>
          simp only [step, hp]
          exact .quiet trivial
  | work cuda =>
      cases h.phase with
      | idle _ hto _ =>
          simp only [step, hto, if_true]
          exact .quiet (safe_of_blocked hto cuda)
      | @asked p hp hto hfrom =>
          have hread : Net.frameAt s.toWorker = (some (forwardedFrame p), []) := by
            rw [hto, frameAt_encode (forwardedFrame_fits p)]
          obtain ⟨f, hsent, hturn⟩ := step_turned h.live p cuda
          have hne : s.toWorker ≠ [] := by
            rw [hto]
            exact encode_ne_nil _ _
          simp only [step, hne, if_false, hread, hsent, hfrom, Option.elim_some, List.nil_append]
          refine .turned hp hfrom hturn ?_
          simp only [Safe, hread, Option.some.injEq, forall_eq']
          cases p with
          | allocate id gen bytes => simp [forwardedFrame, SafeTurn]
          | release id gen boot => simp [forwardedFrame, SafeTurn]
      | replied _ hto _ _ _ =>
          simp only [step, hto, if_true]
          exact .quiet (safe_of_blocked hto cuda)
  | answer =>
      cases h.phase with
      | idle hp _ _ =>
          simp only [step, hp]
          exact .quiet trivial
      | asked hp _ hfrom =>
          simp only [step, hp, h.ctrl, hfrom, if_true]
          exact .quiet trivial
      | @replied p f hp hto hfrom htype hfits =>
          have hread : Net.frameAt s.fromWorker = (some f, []) := by rw [hfrom, frameAt_encode hfits]
          have hne : s.fromWorker ≠ [] := by
            rw [hfrom]
            exact encode_ne_nil _ _
          simp only [step, hp, h.ctrl, hne, if_false, hread]
          exact .answered hp hto hfrom htype hfits

/-- An answer keeps the connections and adds entries of this boot only. -/
theorem finish_keeps {c : Coordinator} {p : Pending} {f : Frame}
    (htype : f.type = Coordinator.resultType p) (h : c.OneBoot) :
    (c.finish 2 p (some f)).2.ctrl = c.ctrl ∧ (c.finish 2 p (some f)).2.worker = c.worker ∧
      (c.finish 2 p (some f)).2.OneBoot := by
  cases p with
  | allocate id gen bytes =>
      have htyped : Coordinator.typed .allocateResult (some f) = some f := by
        simpa [Coordinator.typed, Coordinator.resultType] using htype
      rw [(Coordinator.finish_allocate_some 2 id gen bytes htyped).1]
      refine ⟨rfl, rfl, fun k a hf => ?_⟩
      rcases OrdMap.find?_insert_some_iff.mp hf with ⟨_, rfl⟩ | ⟨_, hold⟩
      · rfl
      · exact h k a hold
  | release id gen boot => exact ⟨rfl, rfl, h⟩

theorem wired_step (h : Wired s) (e : Event) : Wired (s.step e).2 := by
  have hmoved := step_moved h e
  generalize (s.step e).2 = s' at hmoved ⊢
  cases hmoved with
  | quiet => exact h
  | asked p hp hfrom => exact ⟨h.ctrl, h.conn, h.live, h.boots, .asked rfl rfl hfrom⟩
  | turned hp hfrom hturn _ =>
      exact ⟨h.ctrl, h.conn, hturn.live h.live, h.boots,
        .replied hp rfl rfl hturn.frame.1 hturn.frame.2⟩
  | answered hp hto hfrom htype _ =>
      obtain ⟨hctrl, hconn, hboots⟩ := finish_keeps htype h.boots
      exact ⟨hctrl.trans h.ctrl, hconn.trans h.conn, h.live, hboots, .idle rfl hto rfl⟩

theorem wired_start (boot : UInt64) : Wired (start boot) :=
  ⟨rfl, rfl, rfl, fun id a hf => by simp [start] at hf, .idle rfl rfl rfl⟩

theorem wired_run (boot : UInt64) (events : List Event) : Wired (run step (start boot) events) :=
  run_of_step (I := Wired) (wired_start boot) (fun _ e h => wired_step h e) events

end Steps

/-! ## Agreement -/

section Agreement

variable {s : Deployment}

theorem settled_of_none (h : s.pending = none) : s.settled = s.coord := by
  simp only [settled, h]

theorem settled_of_unanswered (h : s.fromWorker = []) : s.settled = s.coord := by
  unfold settled
  split
  · rfl
  · rw [if_pos h]

theorem settled_of_reply {p : Pending} {f : Frame} (hp : s.pending = some p)
    (hfrom : s.fromWorker = encode f.type f.payload) (hfits : f.payload.length ≤ kMaxFrame.toNat) :
    s.settled = (s.coord.finish 2 p (some f)).2 := by
  simp only [settled, hp, hfrom, encode_ne_nil, if_false, frameAt_encode hfits]

/-- **One step** of a deployment that agrees keeps agreeing exactly when it
is safe. -/
theorem settled_step (h : Wired s) (hs : Settled s) (e : Event) :
    Settled (s.step e).2 ↔ Safe s e := by
  have hmoved := step_moved h e
  generalize (s.step e).2 = s' at hmoved ⊢
  cases hmoved with
  | quiet hsafe => exact iff_of_true hs hsafe
  | asked p hp hfrom =>
      rw [Settled, settled_of_unanswered hfrom] at hs
      refine iff_of_true ?_ trivial
      rw [Settled, settled_of_unanswered (s := { s with pending := some p, toWorker := _ }) hfrom]
      exact hs
  | @turned _ _ f w hp hfrom hturn hsafe =>
      rw [Settled, settled_of_unanswered hfrom] at hs
      have hreply := settled_of_reply
        (s := { s with worker := w, toWorker := [], fromWorker := encode f.type f.payload })
        hp rfl hturn.frame.2
      rw [Settled, hreply, hsafe]
      exact hturn.agrees hs
  | answered hp hto hfrom htype hfits =>
      rw [Settled, settled_of_reply hp hfrom hfits] at hs
      refine iff_of_true ?_ trivial
      rw [Settled, settled_of_none rfl]
      exact hs

theorem agrees_iff_settled (h : Wired s) (hp : s.pending = none) : Agrees s ↔ Settled s := by
  have hquery : (s.step (.request .query)).1 =
      [.send s.coord.ctrl .queryResult
        (appendU64 (appendU64 [] (totals s.coord.granted).1) (totals s.coord.granted).2)] := by
    simp only [step, hp, h.ctrl, Request.frame, Coordinator.begin,
      Coordinator.tally_eq_totals h.boots]
  rw [Settled, settled_of_none hp, Agrees, hquery]
  constructor
  · exact fun hagree => hagree.1
  · intro hagree
    rw [hagree]
    exact ⟨rfl, rfl⟩

/-- While the answer to an unsafe turn is not read the request stays
pending, and reading it shows the difference. -/
theorem unsettled_pending (events : List Event) (h : Wired s) (hp : s.pending ≠ none)
    (hfrom : s.fromWorker ≠ []) (hs : ¬ Settled s)
    (hagree : Throughout step (fun _ s => s.pending = none → Agrees s) s events) :
    (run step s events).pending ≠ none := by
  induction events generalizing s with
  | nil => exact hp
  | cons e events ih =>
      have hmoved := step_moved h e
      have hwired := wired_step h e
      have hnext : Throughout step (fun _ s => s.pending = none → Agrees s) (s.step e).2 events :=
        fun pre hpre => hagree (e :: pre) (List.cons_prefix_cons.mpr ⟨rfl, hpre⟩)
      show (run step (s.step e).2 events).pending ≠ none
      generalize (s.step e).2 = s' at hmoved hwired hnext ⊢
      cases hmoved with
      | quiet => exact ih h hp hfrom hs hnext
      | asked _ hnone _ => exact absurd hnone hp
      | turned _ hempty _ _ => exact absurd hempty hfrom
      | answered hpending hto hreply htype hfits =>
          have hat := hnext [] (List.nil_prefix) rfl
          have hsettled := (agrees_iff_settled hwired rfl).mp hat
          rw [Settled, settled_of_none rfl] at hsettled
          rw [Settled, settled_of_reply hpending hreply hfits] at hs
          exact absurd hsettled hs

/-- A run that agrees whenever nothing is pending, and ends so, agrees all
the way. -/
theorem settled_of_agrees {boot : UInt64} {events : List Event}
    (hend : (run step (start boot) events).pending = none)
    (hagree : Throughout step (fun _ s => s.pending = none → Agrees s) (start boot) events) :
    Throughout step (fun _ s => Settled s) (start boot) events := by
  intro pre
  induction pre using List.reverseRecOn with
  | nil => exact fun _ => rfl
  | append_singleton pre e ih =>
      intro hpre
      have hs := ih ((List.prefix_append _ _).trans hpre)
      have hw := wired_run boot pre
      by_contra hns
      rw [run_concat] at hns
      have hunsafe : ¬ Safe (run step (start boot) pre) e := by rwa [settled_step hw hs] at hns
      -- the rest of the run starts with the wrong answer on its way
      obtain ⟨rest, rfl⟩ := hpre
      have hrest : Throughout step (fun _ s => s.pending = none → Agrees s)
          (run step (start boot) (pre ++ [e])) rest := by
        intro tail htail
        have := hagree ((pre ++ [e]) ++ tail) ((List.prefix_append_right_inj _).mpr htail)
        rwa [run_append] at this
      rw [run_append] at hend
      have hwired := wired_run boot (pre ++ [e])
      rw [run_concat] at hrest hend hwired
      have hmoved := step_moved hw e
      generalize ((run step (start boot) pre).step e).2 = s' at hmoved hns hrest hend hwired
      cases hmoved with
      | quiet hsafe => exact hunsafe hsafe
      | asked => exact hunsafe trivial
      | answered => exact hunsafe trivial
      | turned hp _ _ _ =>
          refine unsettled_pending rest hwired (fun hnone => ?_) (encode_ne_nil _ _) hns hrest hend
          rw [hp] at hnone
          cases hnone

/-- **The two sides agree** whenever nothing is pending in a run of safe
turns, and a run that ends with nothing pending agrees only if its turns
are safe. -/
theorem agreement (boot : UInt64) (events : List Event) :
    (Guarded step Safe (start boot) events →
      Throughout step (fun _ s => s.pending = none → Agrees s) (start boot) events) ∧
    ((run step (start boot) events).pending = none →
      Throughout step (fun _ s => s.pending = none → Agrees s) (start boot) events →
      Guarded step Safe (start boot) events) := by
  have hexact : Throughout step (fun _ s => Settled s) (start boot) events ↔
      Guarded step Safe (start boot) events := by
    rw [guarded_iff_concat]
    refine throughout_iff (G := fun _ s e => Safe s e) rfl (fun pre e hs => ?_)
    rw [run_concat]
    exact settled_step (wired_run boot pre) hs e
  constructor
  · intro hsafe pre hpre hp
    exact (agrees_iff_settled (wired_run boot pre) hp).mpr (hexact.mpr hsafe pre hpre)
  · intro hend hagree
    exact hexact.mp (settled_of_agrees hend hagree)

end Agreement

/-- An allocation, a second one that the device has no room for, and a
query. -/
def answeredRounds : List Event :=
  [.request (.allocate 5 1 4096), .work (.ok 64), .answer,
   .request (.allocate 6 1 8192), .work (.error ⟨ascii "out of memory", by decide⟩), .answer,
   .request .query]

/-- Both sides have the first allocation, and QUERY reports its 4096 bytes. -/
theorem agreement_answeredRounds :
    let s := run step (start 7) answeredRounds
    s.worker.held.find? 5 = some (1, 4096) ∧ s.coord.granted = s.worker.held ∧
      (s.step (.request .query)).1
        = [.send (some 2) .queryResult (appendU64 (appendU64 [] 4096) 1)] := by
  intro s
  have hsafe : Guarded step Safe (start 7) answeredRounds := by decide +kernel
  obtain ⟨hsame, hquery⟩ := (agreement 7 answeredRounds).1 hsafe answeredRounds
    (List.prefix_refl _) (by decide +kernel)
  have htotals : totals s.worker.held = (4096, 1) := by decide +kernel
  have hctrl : s.coord.ctrl = some 2 := by decide +kernel
  refine ⟨by decide +kernel, hsame, ?_⟩
  rw [hquery, htotals, hctrl]

/-- An allocation, and its release. -/
def releaseRound : List Event :=
  [.request (.allocate 5 1 4096), .work (.ok 64), .answer,
   .request (.release 5 1 7), .work (.ok 0), .answer]

/-- The worker is empty, and the coordinator reports 4096 bytes. -/
theorem releaseRound_disagrees :
    (run step (start 7) releaseRound).pending = none ∧
    (run step (start 7) releaseRound).worker.held = .empty ∧
    (run step (start 7) releaseRound).coord.granted.find? 5 = some (1, 4096) ∧
    ((run step (start 7) releaseRound).step (.request .query)).1
      = [.send (some 2) .queryResult (appendU64 (appendU64 [] 4096) 1)] ∧
    ¬ Agrees (run step (start 7) releaseRound) := by
  refine ⟨by decide +kernel, by decide +kernel, by decide +kernel, by decide +kernel, fun h => ?_⟩
  have hsame := congrArg (fun m => OrdMap.find? m 5) h.1
  revert hsame
  decide +kernel

end Deployment

end GpuMemoryService
