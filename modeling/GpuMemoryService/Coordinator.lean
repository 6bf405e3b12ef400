/-
GpuMemoryService.Coordinator — the coordinator process
(`coordinator.cpp`).

One process polls a listening socket and at most one controller. A new
connection says whether it is a worker or a controller and takes the
place of the one that was there. A controller frame is handled to its end:
ALLOCATE and RELEASE are forwarded to the registered worker and the
coordinator waits for the answer, QUERY is answered from `g_alloc`.

Translation notes.
* A `SOCKET` is a `Conn`, and `INVALID_SOCKET` is `none`.
* One turn of the polling loop accepts a connection, then handles a
  controller frame; either part may be absent. The two parts are separate
  steps here, so a turn is one step or two in a row.
* What `recv_frame` returns is an argument of the step: `none` is its
  `false`. It is asked for only where the source calls it.
* A failed `take_*` whose result is ignored leaves the variable at 0 and
  the position where it was (`fieldU64`, `fieldU32`, `fieldStr`).
* Nothing looks at whether a `send_frame` succeeded. The lines printed to
  the console are left out.
-/
import GpuMemoryService.Lib.OrdMap
import GpuMemoryService.Lib.Word
import GpuMemoryService.Protocol

namespace GpuMemoryService

open Lib Mp

/-! ## Payloads -/

/-- The bytes of an ASCII text. -/
def ascii (s : String) : Bytes := s.toList.map (fun c => UInt8.ofNat c.toNat)

/-- `take_u64` with its failure ignored. -/
def fieldU64 (b : Bytes) (p : Nat) : UInt64 × Nat := (takeU64 b p).getD (0, p)

def fieldU32 (b : Bytes) (p : Nat) : UInt32 × Nat := (takeU32 b p).getD (0, p)

def fieldStr (b : Bytes) (p : Nat) : Bytes := ((takeStr b p).getD ([], p)).1

/-- Three numbers, as ALLOCATE and RELEASE carry them. -/
def triple (a b c : UInt64) : Bytes := appendU64 (appendU64 (appendU64 [] a) b) c

/-- The three numbers of a payload. -/
def readTriple (payload : Bytes) : UInt64 × UInt64 × UInt64 :=
  let (a, p) := fieldU64 payload 0
  let (b, p) := fieldU64 payload p
  let (c, _) := fieldU64 payload p
  (a, b, c)

/-- The payload of ALLOCATE_RESULT and RELEASE_RESULT. -/
def resultPayload (id gen : UInt64) (status : UInt32) (e : Bytes) : Bytes :=
  appendStr (appendU32 (appendU64 (appendU64 [] id) gen) status) e

/-- Status and text of a result payload. -/
def readResult (payload : Bytes) : UInt32 × Bytes :=
  let (_, p) := fieldU64 payload 0
  let (_, p) := fieldU64 payload p
  let (status, p) := fieldU32 payload p
  (status, fieldStr payload p)

/-! ## State -/

abbrev Conn := Nat

structure AllocState where
  id : UInt64
  gen : UInt64
  boot : UInt64
  bytes : UInt64
  current : Bool
deriving DecidableEq, Repr

structure Coordinator where
  ctrl : Option Conn := none
  worker : Option Conn := none
  workerBoot : UInt64 := 0
  gAlloc : OrdMap UInt64 AllocState := .empty
  /-- the process has returned -/
  stopped : Bool := false
deriving DecidableEq

/-- What the coordinator does to its connections. -/
inductive Out where
  | send (dest : Option Conn) (type : Msg) (payload : Bytes)
  | close (c : Conn)
deriving DecidableEq, Repr

/-- A new connection and the frames it is asked for. -/
structure Handshake where
  conn : Conn
  hello : Option Frame := none
  reg : Option Frame := none
  cap : Option Frame := none
deriving DecidableEq, Repr

/-- A request that has been forwarded to the worker. -/
inductive Pending where
  | allocate (id gen bytes : UInt64)
  | release (id gen boot : UInt64)
deriving DecidableEq, Repr

namespace Coordinator

/-! ## Connections -/

/-- The role a connection announces, unless its first frame does not come
or is empty. -/
def role (hello : Option Frame) : Option UInt8 := do
  let hello ← hello
  let (role, _) ← takeU8 hello.payload 0
  pure role

/-- The boot a worker registers with, unless one of its frames does not come
or is too short. -/
def registration (reg cap : Option Frame) : Option UInt64 := do
  let reg ← reg
  let (_, rp) ← takeStr reg.payload 0
  let (boot, rp) ← takeU64 reg.payload rp
  let _ ← takeU64 reg.payload rp
  let _ ← cap
  pure boot

def accept (c : Coordinator) (hs : Handshake) : List Out × Coordinator :=
  match role hs.hello with
  | none => ([.close hs.conn], c)
  | some role =>
      if role = 2 then
        match registration hs.reg hs.cap with
        | none => ([.close hs.conn], c)
        | some boot =>
            (c.worker.toList.map .close, { c with worker := some hs.conn, workerBoot := boot })
      else (c.ctrl.toList.map .close, { c with ctrl := some hs.conn })

/-! ## Requests -/

/-- The two sums of QUERY. -/
def tally (c : Coordinator) : UInt64 × UInt64 :=
  c.gAlloc.entries.foldl
    (fun (committed, current) e =>
      if e.2.current then (committed + e.2.bytes, current + 1) else (committed, current))
    (0, 0)

/-- A handler up to its end, or up to the point where it waits for the
worker's answer. -/
def begin (c : Coordinator) (ctrl : Conn) (f : Frame) : List Out × Coordinator × Option Pending :=
  match f.type with
  | .allocate =>
      let (id, gen, bytes) := readTriple f.payload
      if c.worker.isNone || c.workerBoot == 0 then
        ([.send (some ctrl) .allocateResult (resultPayload id gen 0xFFFFFFFE (ascii "no worker"))],
          c, none)
      else
        ([.send c.worker .allocate (triple id gen bytes)], c, some (.allocate id gen bytes))
  | .release =>
      let (id, gen, boot) := readTriple f.payload
      let stale : List Out × Coordinator × Option Pending :=
        ([.send (some ctrl) .releaseResult
            (resultPayload id gen 0xFFFFFFFF (ascii "stale or unknown"))], c, none)
      match c.gAlloc.find? id with
      | none => stale
      | some a =>
          if a.gen != gen || a.boot != c.workerBoot then stale
          else ([.send c.worker .release (triple id gen boot)], c, some (.release id gen boot))
  | .query =>
      let (committed, current) := c.tally
      ([.send (some ctrl) .queryResult (appendU64 (appendU64 [] committed) current)], c, none)
  | .shutdown => (c.worker.toList.map .close ++ [.close ctrl], { c with stopped := true }, none)
  | _ => ([], c, none)

/-- Entries of a worker that is gone are no longer current. -/
def fence (boot : UInt64) (a : AllocState) : AllocState :=
  if a.boot == boot then { a with current := false } else a

/-- The answer, when it came and has the type that was asked for. -/
def typed (type : Msg) (answer : Option Frame) : Option Frame :=
  answer.filter (fun f => f.type == type)

/-- The rest of the handler: `answer` is what `recv_frame(worker)` gives. -/
def finish (c : Coordinator) (ctrl : Conn) (p : Pending) (answer : Option Frame) :
    List Out × Coordinator :=
  match p with
  | .allocate id gen bytes =>
      match typed .allocateResult answer with
      | none =>
          (c.worker.toList.map .close ++
            [.send (some ctrl) .allocateResult
              (resultPayload id gen 0xFFFFFFF6 (ascii "worker dead"))],
            { c with gAlloc := c.gAlloc.mapValues (fence c.workerBoot), worker := none, workerBoot := 0 })
      | some res =>
          let (status, e) := readResult res.payload
          ([.send (some ctrl) .allocateResult (resultPayload id gen status e)],
            { c with gAlloc := c.gAlloc.insert id ⟨id, gen, c.workerBoot, bytes, status == 0⟩ })
  | .release id gen _ =>
      let (status, e) :=
        match typed .releaseResult answer with
        | none => (0xFFFFFFF6, ascii "worker dead")
        | some res => readResult res.payload
      ([.send (some ctrl) .releaseResult (resultPayload id gen status e)], c)

/-- A controller frame, `none` when it does not come. -/
def request (c : Coordinator) (frame answer : Option Frame) : List Out × Coordinator :=
  match c.ctrl with
  | none => ([], c)
  | some ctrl =>
      match frame with
      | none => ([.close ctrl], { c with ctrl := none })
      | some f =>
          match c.begin ctrl f with
          | (out, c', none) => (out, c')
          | (out, c', some p) =>
              -- the invalid socket has nothing to read
              let (out', c'') := c'.finish ctrl p (c'.worker.bind (fun _ => answer))
              (out ++ out', c'')

inductive Event where
  | accept (hs : Handshake)
  | request (frame answer : Option Frame)
deriving DecidableEq, Repr

def step (c : Coordinator) (e : Event) : List Out × Coordinator :=
  if c.stopped then ([], c)
  else
    match e with
    | .accept hs => c.accept hs
    | .request frame answer => c.request frame answer

end Coordinator

end GpuMemoryService
