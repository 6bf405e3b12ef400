/-
GpuMemoryService.Worker — the worker process (`worker.cpp`).

After its handshake a worker answers ALLOCATE and RELEASE frames one by
one, with `cudaMalloc` and `cudaFree` on the device and a map from ids to
what it holds. What `recv_frame` and `cudaMalloc` return are arguments of
a step, and a step reports what it sent, which pointer it obtained and
which pointers it freed.

`freed_was_obtained`: a pointer freed by a RELEASE (id, gen) was obtained
by an ALLOCATE (id, gen) of the same process.
-/
import GpuMemoryService.Lib.Run
import GpuMemoryService.Coordinator

namespace GpuMemoryService

open Lib Mp

structure Alloc where
  gen : UInt64
  bytes : UInt64
  ptr : UInt64
deriving DecidableEq, Repr

structure Worker where
  allocs : OrdMap UInt64 Alloc := .empty
  /-- the process has returned -/
  exited : Bool := false
deriving DecidableEq

namespace Worker

/-- What one turn of the message loop receives: the frame, and what
`cudaMalloc` would return (a pointer, or the text of its error). -/
structure Input where
  frame : Option Frame
  cuda : Except Bytes UInt64

/-- What one turn does. -/
structure Turn where
  sent : Option Frame := none
  obtained : Option UInt64 := none
  freed : List UInt64 := []
deriving DecidableEq, Repr

def allocate (w : Worker) (payload : Bytes) (cuda : Except Bytes UInt64) : Turn × Worker :=
  let (id, gen, bytes) := readTriple payload
  match cuda with
  | .error e => ({ sent := some ⟨.allocateResult, resultPayload id gen 0xFFFFFFFF e⟩ }, w)
  | .ok ptr =>
      ({ sent := some ⟨.allocateResult, resultPayload id gen 0 []⟩, obtained := some ptr },
        { w with allocs := w.allocs.insert id ⟨gen, bytes, ptr⟩ })

def release (w : Worker) (payload : Bytes) : Turn × Worker :=
  let (id, gen, _) := readTriple payload
  let stale : Turn × Worker :=
    ({ sent := some ⟨.releaseResult, resultPayload id gen 0xFFFFFFFF (ascii "stale or unknown")⟩ },
      w)
  match w.allocs.find? id with
  | none => stale
  | some a =>
      if a.gen != gen then stale
      else
        ({ sent := some ⟨.releaseResult, resultPayload id gen 0 []⟩, freed := [a.ptr] },
          { w with allocs := w.allocs.erase id })

def step (w : Worker) (i : Input) : Turn × Worker :=
  if w.exited then ({}, w)
  else
    match i.frame with
    | none => ({}, { w with exited := true })
    | some f =>
        match f.type with
        | .allocate => w.allocate f.payload i.cuda
        | .release => w.release f.payload
        | .shutdown => ({ freed := w.allocs.entries.map (·.2.ptr) }, { w with exited := true })
        | _ => ({}, w)

/-! ## What a worker frees -/

/-- The turn is an ALLOCATE that obtained a pointer: id, generation and
pointer. -/
def obtains (e : Input × Turn) : Option (UInt64 × UInt64 × UInt64) := do
  let f ← e.1.frame
  guard (f.type = .allocate)
  let ptr ← e.2.obtained
  let (id, gen, _) := readTriple f.payload
  pure (id, gen, ptr)

/-- Everything held was obtained by an ALLOCATE of its id and generation. -/
def Obtained (t : List (Input × Turn)) (w : Worker) : Prop :=
  ∀ id a, w.allocs.find? id = some a → (id, a.gen, a.ptr) ∈ t.filterMap obtains

theorem obtained_step {t : List (Input × Turn)} {w : Worker} (h : Obtained t w) (i : Input) :
    Obtained (t ++ [(i, (w.step i).1)]) (w.step i).2 := by
  have hkeep : ∀ {w' : Worker} {e : Input × Turn},
      (∀ id a, w'.allocs.find? id = some a → w.allocs.find? id = some a) →
      Obtained (t ++ [e]) w' := by
    intro w' e hsub id a hf
    rw [List.filterMap_append]
    exact List.mem_append_left _ (h id a (hsub id a hf))
  unfold step
  split
  · exact hkeep (fun _ _ hf => hf)
  split
  · exact hkeep (fun _ _ hf => hf)
  rename_i f hframe
  split
  · rename_i htype
    unfold allocate
    cases hcuda : i.cuda with
    | error e => exact hkeep (fun _ _ hf => hf)
    | ok ptr =>
        intro id a hf
        rw [List.filterMap_append, List.mem_append]
        rcases OrdMap.find?_insert_some_iff.mp hf with ⟨rfl, rfl⟩ | ⟨_, hold⟩
        · right
          simp [obtains, hframe, htype, guard]
        · exact Or.inl (h id a hold)
  · rcases hread : readTriple f.payload with ⟨id, gen, boot⟩
    simp only [release, hread]
    split
    · exact hkeep (fun _ _ hf => hf)
    · split
      · exact hkeep (fun _ _ hf => hf)
      · exact hkeep (fun _ _ hf => (OrdMap.find?_erase_some_iff.mp hf).2)
  · exact hkeep (fun _ _ hf => hf)
  · exact hkeep (fun _ _ hf => hf)

theorem run_obtained (inputs : List Input) :
    Obtained (trace step {} inputs) (run step {} inputs) :=
  trace_of_step (P := Obtained) (fun id a hf => by simp at hf) (fun _ _ i h => obtained_step h i)
    inputs

/-- A pointer that a RELEASE frees was obtained by an ALLOCATE of the same
id and generation earlier in the life of the process. -/
theorem freed_was_obtained (inputs : List Input) (i : Input) {f : Frame}
    (hframe : i.frame = some f) (htype : f.type = .release) {ptr : UInt64}
    (hfreed : ptr ∈ ((run step {} inputs).step i).1.freed) :
    ((readTriple f.payload).1, (readTriple f.payload).2.1, ptr)
      ∈ (trace step {} inputs).filterMap obtains := by
  have h := run_obtained inputs
  generalize run step {} inputs = w at h hfreed
  unfold step at hfreed
  split at hfreed
  · cases hfreed
  simp only [hframe, htype, release] at hfreed
  split at hfreed
  · cases hfreed
  · rename_i a hf
    split at hfreed
    · cases hfreed
    · rename_i hgen
      obtain rfl := List.mem_singleton.mp hfreed
      have hg : a.gen = (readTriple f.payload).2.1 := by simpa using hgen
      rw [← hg]
      exact h _ a hf

end Worker

end GpuMemoryService
