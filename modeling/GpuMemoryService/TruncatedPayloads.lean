/-
GpuMemoryService.TruncatedPayloads — frames whose checksum is right and
whose payload is too short.

The handshake checks every `take_*` and closes the connection when one
returns false. The handlers of ALLOCATE, RELEASE and ALLOCATE_RESULT do not:
a field that is not there is 0, and a later field is read where the missing
one should be. So a short ALLOCATE is forwarded like any other, a short
RELEASE is forwarded when the fields it does have name an entry, an answer
that breaks off before its status counts as success, and the worker allocates
and frees on short frames too.

`malformed_ignored_iff` says for each of the three handlers exactly when it
does leave the allocation state alone.
-/
import GpuMemoryService.CoordinatorTheorems
import GpuMemoryService.ProtocolTheorems
import GpuMemoryService.WorkerMemory

namespace GpuMemoryService

open Lib Mp

/-! ## What is read from a short payload -/

theorem fieldU64_short {b : Bytes} {p : Nat} (h : b.length < p + 8) : fieldU64 b p = (0, p) := by
  have hnone : takeU64 b p = none := by simp [takeU64, takeWord, h]
  rw [fieldU64, hnone]
  rfl

theorem fieldU64_snd {b : Bytes} {p : Nat} (h : p + 8 ≤ b.length) : (fieldU64 b p).2 = p + 8 := by
  simp [fieldU64, takeU64, takeWord, Nat.not_lt.mpr h]

/-- Of a short payload the fields that are not complete are 0. -/
theorem readTriple_short {b : Bytes} (h : b.length < 24) :
    readTriple b = ((fieldU64 b 0).1, (fieldU64 b 8).1, 0) := by
  unfold readTriple
  dsimp only
  by_cases h8 : b.length < 8
  · have hfirst := fieldU64_short (b := b) (p := 0) h8
    have hsecond := fieldU64_short (b := b) (p := 8) (by omega)
    simp only [hfirst, hsecond]
  · have hfirst : (fieldU64 b 0).2 = 8 := fieldU64_snd (p := 0) (by omega)
    rw [hfirst]
    by_cases h16 : b.length < 16
    · rw [fieldU64_short (p := 8) h16, fieldU64_short (p := 8) h16]
    · have hsecond : (fieldU64 b 8).2 = 16 := fieldU64_snd (p := 8) (by omega)
      rw [hsecond, fieldU64_short (p := 16) h]

/-- Where the status of an answer is read: behind as many of the two numbers
as are complete; 0 when the status is not complete there. -/
def statusWord (b : Bytes) : UInt32 :=
  if b.length < 8 then (fieldU32 b 0).1
  else if b.length < 16 then (fieldU32 b 8).1
  else (fieldU32 b 16).1

theorem readResult_eq_statusWord (b : Bytes) : (readResult b).1 = statusWord b := by
  unfold readResult statusWord
  by_cases h8 : b.length < 8
  · rw [if_pos h8, fieldU64_short (p := 0) h8]
    dsimp only
    rw [fieldU64_short (p := 0) h8]
  · have hfirst : (fieldU64 b 0).2 = 8 := fieldU64_snd (p := 0) (by omega)
    rw [if_neg h8]
    dsimp only
    rw [hfirst]
    by_cases h16 : b.length < 16
    · rw [if_pos h16, fieldU64_short (p := 8) h16]
    · have hsecond : (fieldU64 b 8).2 = 16 := fieldU64_snd (p := 8) (by omega)
      rw [if_neg h16, hsecond]

/-- An ALLOCATE or a RELEASE whose payload is too short for its three
numbers. -/
def Truncated (f : Frame) : Prop :=
  (f.type = .allocate ∨ f.type = .release) ∧ f.payload.length < 24

/-! ## Requests that reach the coordinator -/

namespace Coordinator

/-- The event forwards no request and leaves the table as it is. -/
structure Ignores (c : Coordinator) (e : Event) : Prop where
  sends : ∀ dest type payload, Out.send dest type payload ∈ (c.step e).1 →
    type ≠ .allocate ∧ type ≠ .release
  table : (c.step e).2.gAlloc = c.gAlloc

/-- There is nobody to forward the frame for or to: the coordinator is
stopped or has no controller; for an ALLOCATE there is no worker with a boot;
for a RELEASE no entry of the worker's boot has the id and the generation that
the frame gives, a field that is not complete being 0. -/
def Unserved (c : Coordinator) (f : Frame) : Prop :=
  c.stopped = true ∨ c.ctrl = none ∨
    (f.type = .allocate ∧ (c.worker = none ∨ c.workerBoot = 0)) ∨
    (f.type = .release ∧ ∀ a, c.gAlloc.find? (fieldU64 f.payload 0).1 = some a →
      ¬ (a.gen = (fieldU64 f.payload 8).1 ∧ a.boot = c.workerBoot))

section Requests

variable {c : Coordinator} {ctrl : Conn} {f : Frame} {answer : Option Frame}

/-- A handler that is done at once. -/
theorem ignores_of_begin {out : List Out} (hrun : c.stopped = false) (hctrl : c.ctrl = some ctrl)
    (hbegin : c.begin ctrl f = (out, c, none))
    (hsends : ∀ dest type payload, Out.send dest type payload ∈ out →
      type ≠ .allocate ∧ type ≠ .release) : Ignores c (.request (some f) answer) := by
  have hstep : c.step (.request (some f) answer) = (out, c) := by
    simp [step, hrun, request, hctrl, hbegin]
  exact ⟨by rw [hstep]; exact hsends, by rw [hstep]⟩

/-- A handler that forwards. -/
theorem not_ignores_of_begin {dest : Option Conn} {type : Msg} {payload : Bytes} {p : Pending}
    (hrun : c.stopped = false) (hctrl : c.ctrl = some ctrl)
    (hbegin : c.begin ctrl f = ([.send dest type payload], c, some p))
    (htype : type = .allocate ∨ type = .release) : ¬ Ignores c (.request (some f) answer) := by
  intro h
  have hsent : Out.send dest type payload ∈ (c.step (.request (some f) answer)).1 := by
    simp [step, hrun, request, hctrl, hbegin]
  obtain ⟨hne, hne'⟩ := h.sends dest type payload hsent
  rcases htype with htype | htype
  · exact hne htype
  · exact hne' htype

theorem reply_only {conn : Option Conn} {t : Msg} {b : Bytes} (hreq : t ≠ .allocate)
    (hrel : t ≠ .release) (dest : Option Conn) (type : Msg) (payload : Bytes)
    (hmem : Out.send dest type payload ∈ [Out.send conn t b]) :
    type ≠ .allocate ∧ type ≠ .release := by
  cases List.mem_singleton.mp hmem
  exact ⟨hreq, hrel⟩

/-- An ALLOCATE is answered at once or forwarded. -/
theorem begin_allocate (ctrl : Conn) (htype : f.type = .allocate) :
    (c.worker = none ∨ c.workerBoot = 0 →
      ∃ b, c.begin ctrl f = ([.send (some ctrl) .allocateResult b], c, none)) ∧
    (¬ (c.worker = none ∨ c.workerBoot = 0) →
      ∃ b p, c.begin ctrl f = ([.send c.worker .allocate b], c, some p)) := by
  have hcond : (c.worker.isNone || c.workerBoot == 0) = true ↔
      c.worker = none ∨ c.workerBoot = 0 := by simp
  simp only [begin, htype]
  constructor
  · intro h
    rw [if_pos (hcond.mpr h)]
    exact ⟨_, rfl⟩
  · intro h
    rw [if_neg (fun hc => h (hcond.mp hc))]
    exact ⟨_, _, rfl⟩

/-- A RELEASE is answered at once or forwarded. -/
theorem begin_release (ctrl : Conn) (htype : f.type = .release) {id gen last : UInt64}
    (hread : readTriple f.payload = (id, gen, last)) :
    ((∀ a, c.gAlloc.find? id = some a → ¬ (a.gen = gen ∧ a.boot = c.workerBoot)) →
      ∃ b, c.begin ctrl f = ([.send (some ctrl) .releaseResult b], c, none)) ∧
    (¬ (∀ a, c.gAlloc.find? id = some a → ¬ (a.gen = gen ∧ a.boot = c.workerBoot)) →
      ∃ b p, c.begin ctrl f = ([.send c.worker .release b], c, some p)) := by
  simp only [begin, htype, hread]
  cases hfound : c.gAlloc.find? id with
  | none => exact ⟨fun _ => ⟨_, rfl⟩, fun h => absurd (fun a ha => by cases ha) h⟩
  | some a =>
      have hcond : (a.gen != gen || a.boot != c.workerBoot) = true ↔
          ¬ (a.gen = gen ∧ a.boot = c.workerBoot) := by
        simp only [Bool.or_eq_true, bne_iff_ne, ne_eq, not_and_or]
      constructor
      · intro h
        dsimp only
        rw [if_pos (hcond.mpr (h a rfl))]
        exact ⟨_, rfl⟩
      · intro h
        have hmatch : ¬ (a.gen != gen || a.boot != c.workerBoot) = true := fun hc =>
          h (fun a' ha' => by cases ha'; exact hcond.mp hc)
        dsimp only
        rw [if_neg hmatch]
        exact ⟨_, _, rfl⟩

/-- A frame that nobody reads. -/
theorem ignores_of_unread (hstep : c.step (.request (some f) answer) = ([], c)) :
    Ignores c (.request (some f) answer) := by
  constructor
  · rw [hstep]
    exact fun _ _ _ hmem => by cases hmem
  · rw [hstep]

/-- **One truncated request** is ignored exactly if it is unserved. -/
theorem ignores_iff (h : Truncated f) :
    Ignores c (.request (some f) answer) ↔ Unserved c f := by
  obtain ⟨htype, hshort⟩ := h
  by_cases hstop : c.stopped = true
  · exact iff_of_true (ignores_of_unread (by simp [step, hstop])) (Or.inl hstop)
  rw [Bool.not_eq_true] at hstop
  cases hctrl : c.ctrl with
  | none =>
      exact iff_of_true (ignores_of_unread (by simp [step, hstop, request, hctrl]))
        (Or.inr (Or.inl hctrl))
  | some ctrl =>
      rcases htype with htype | htype
      · obtain ⟨hdone, hforward⟩ := begin_allocate (c := c) ctrl htype
        by_cases hidle : c.worker = none ∨ c.workerBoot = 0
        · obtain ⟨b, hbegin⟩ := hdone hidle
          exact iff_of_true
            (ignores_of_begin hstop hctrl hbegin (reply_only (by decide) (by decide)))
            (Or.inr (Or.inr (Or.inl ⟨htype, hidle⟩)))
        · obtain ⟨b, p, hbegin⟩ := hforward hidle
          refine iff_of_false (not_ignores_of_begin hstop hctrl hbegin (Or.inl rfl)) ?_
          simp [Unserved, hstop, hctrl, htype, hidle]
      · obtain ⟨hdone, hforward⟩ :=
          begin_release (c := c) ctrl htype (readTriple_short hshort)
        by_cases hstale : ∀ a, c.gAlloc.find? (fieldU64 f.payload 0).1 = some a →
            ¬ (a.gen = (fieldU64 f.payload 8).1 ∧ a.boot = c.workerBoot)
        · obtain ⟨b, hbegin⟩ := hdone hstale
          exact iff_of_true
            (ignores_of_begin hstop hctrl hbegin (reply_only (by decide) (by decide)))
            (Or.inr (Or.inr (Or.inr ⟨htype, hstale⟩)))
        · obtain ⟨b, p, hbegin⟩ := hforward hstale
          refine iff_of_false (not_ignores_of_begin hstop hctrl hbegin (Or.inr rfl)) ?_
          rintro (hc | hc | ⟨hc, _⟩ | ⟨_, hc⟩)
          · rw [hstop] at hc
            cases hc
          · rw [hctrl] at hc
            cases hc
          · rw [htype] at hc
            cases hc
          · exact hstale hc

end Requests

/-! ## Answers that reach the coordinator -/

/-- The fields of an ALLOCATE_RESULT, unless it is too short for them. -/
def readReply (b : Bytes) : Option (UInt64 × UInt64 × UInt32 × Bytes) := do
  let (id, p) ← takeU64 b 0
  let (gen, p) ← takeU64 b p
  let (status, p) ← takeU32 b p
  let (e, _) ← takeStr b p
  pure (id, gen, status, e)

/-- The answer is too short, or is about another request. -/
def Unfit (id gen : UInt64) (b : Bytes) : Prop :=
  ∀ id' gen' status e, readReply b = some (id', gen', status, e) → (id', gen') ≠ (id, gen)

/-- Every entry that is current afterwards was there before. -/
def NoneBecomesCurrent (c c' : Coordinator) : Prop :=
  ∀ id a, c'.gAlloc.find? id = some a → a.current = true → c.gAlloc.find? id = some a

/-- **One answer** makes no entry current exactly if its status is not 0, or
the entry is there already. -/
theorem noneBecomesCurrent_iff {c : Coordinator} {e : Event} {id gen bytes : UInt64} {res : Frame}
    (hfwd : c.forwarded e = some (.allocate id gen bytes, some res))
    (htype : res.type = .allocateResult) :
    NoneBecomesCurrent c (c.step e).2 ↔
      statusWord res.payload ≠ 0 ∨
        c.gAlloc.find? id = some ⟨id, gen, c.workerBoot, bytes, true⟩ := by
  have hround := step_round c e
  generalize c.step e = r at hround ⊢
  obtain ⟨out, c'⟩ := r
  dsimp only at hround ⊢
  have htyped : typed .allocateResult (some res) = some res := by simp [typed, htype]
  cases hround with
  | quiet _ hnone _ _ => rw [hfwd] at hnone; cases hnone
  | registered _ hnone _ => rw [hfwd] at hnone; cases hnone
  | dead _ hsome hres _ =>
      rw [hfwd] at hsome
      cases hsome
      rw [htyped] at hres
      cases hres
  | released _ hsome _ _ _ _ => rw [hfwd] at hsome; cases hsome
  | granted _ hsome _ _ hres _ =>
      rw [hfwd] at hsome
      cases hsome
      rw [htyped] at hres
      cases hres
      rw [readResult_eq_statusWord]
      by_cases hstatus : statusWord res.payload = 0
      · have hcurrent : (statusWord res.payload == 0) = true := beq_iff_eq.mpr hstatus
        rw [hcurrent]
        constructor
        · intro h
          exact Or.inr (h id _ (OrdMap.find?_insert_self _ _ _) rfl)
        · rintro (hne | hthere)
          · exact absurd hstatus hne
          · intro i a hf _
            rcases OrdMap.find?_insert_some_iff.mp hf with ⟨rfl, rfl⟩ | ⟨_, hold⟩
            · exact hthere
            · exact hold
      · refine iff_of_true (fun i a hf hcurrent => ?_) (Or.inl hstatus)
        rcases OrdMap.find?_insert_some_iff.mp hf with ⟨rfl, rfl⟩ | ⟨_, hold⟩
        · exact absurd (beq_iff_eq.mp hcurrent) hstatus
        · exact hold

end Coordinator

/-! ## Requests that reach the worker -/

namespace Worker

/-- The worker obtains and frees nothing in the turn. -/
def Idle (w : Worker) (i : Input) : Prop :=
  (w.step i).1.obtained = none ∧ (w.step i).1.freed = []

/-- The worker is gone; for an ALLOCATE `cudaMalloc` fails; for a RELEASE no
entry has the id and the generation that the frame gives, a field that is not
complete being 0. -/
def Unserved (w : Worker) (i : Input) (f : Frame) : Prop :=
  w.exited = true ∨
    (f.type = .allocate ∧ ∃ e, i.cuda = .error e) ∨
    (f.type = .release ∧ ∀ a, w.allocs.find? (fieldU64 f.payload 0).1 = some a →
      a.gen ≠ (fieldU64 f.payload 8).1)

/-- **One truncated request** leaves the worker idle exactly if it is
unserved. -/
theorem idle_iff {w : Worker} {i : Input} {f : Frame} (hframe : i.frame = some f)
    (h : Truncated f) : Idle w i ↔ Unserved w i f := by
  obtain ⟨htype, hshort⟩ := h
  have hread := readTriple_short hshort
  unfold Idle
  by_cases hexit : w.exited = true
  · exact iff_of_true (by simp [step, hexit]) (Or.inl hexit)
  rw [step, if_neg hexit]
  rcases htype with htype | htype
  · simp only [hframe, htype, allocate, hread]
    cases hcuda : i.cuda with
    | error e => exact iff_of_true ⟨rfl, rfl⟩ (Or.inr (Or.inl ⟨htype, e, hcuda⟩))
    | ok ptr =>
        refine iff_of_false (fun hc => by cases hc.1) ?_
        simp [Unserved, hexit, htype, hcuda]
  · simp only [hframe, htype, release, hread]
    cases hfound : w.allocs.find? (fieldU64 f.payload 0).1 with
    | none =>
        refine iff_of_true ⟨rfl, rfl⟩ (Or.inr (Or.inr ⟨htype, fun a ha => ?_⟩))
        rw [hfound] at ha
        cases ha
    | some a =>
        by_cases hgen : a.gen = (fieldU64 f.payload 8).1
        · simp only [hgen, bne_self_eq_false, Bool.false_eq_true, if_false]
          refine iff_of_false (fun hc => by cases hc.2) ?_
          simp [Unserved, hexit, htype, hfound, hgen]
        · simp only [bne_iff_ne.mpr hgen, if_true]
          refine iff_of_true ⟨trivial, trivial⟩ (Or.inr (Or.inr ⟨htype, fun a' ha' => ?_⟩))
          rw [hfound] at ha'
          cases ha'
          exact hgen

end Worker

/-! ## Both processes -/

/-- **When malformed payloads change nothing.** In every reachable state of
the coordinator a truncated request is ignored exactly if it is unserved, and
an answer to an ALLOCATE that is too short or about another request makes no
entry current exactly if the status read from it is not 0 or the entry is
there already; in every reachable state of the worker a truncated request
leaves the device alone exactly if it is unserved. -/
theorem malformed_ignored_iff (events : List Coordinator.Event) (inputs : List Worker.Input) :
    (∀ (f : Frame) (answer : Option Frame), Truncated f →
      (Coordinator.Ignores (run Coordinator.step {} events) (.request (some f) answer) ↔
        Coordinator.Unserved (run Coordinator.step {} events) f)) ∧
    (∀ (e : Coordinator.Event) (id gen bytes : UInt64) (res : Frame),
      (run Coordinator.step {} events).forwarded e
        = some (.allocate id gen bytes, some res) →
      res.type = .allocateResult → Coordinator.Unfit id gen res.payload →
      (Coordinator.NoneBecomesCurrent (run Coordinator.step {} events)
          ((run Coordinator.step {} events).step e).2 ↔
        statusWord res.payload ≠ 0 ∨
          (run Coordinator.step {} events).gAlloc.find? id = some
            ⟨id, gen, (run Coordinator.step {} events).workerBoot, bytes, true⟩)) ∧
    ∀ (i : Worker.Input) (f : Frame), i.frame = some f → Truncated f →
      (Worker.Idle (run Worker.step {} inputs) i ↔
        Worker.Unserved (run Worker.step {} inputs) i f) := by
  refine ⟨?_, ?_, ?_⟩
  · intro f answer h
    exact Coordinator.ignores_iff h
  · intro e id gen bytes res hfwd htype _
    exact Coordinator.noneBecomesCurrent_iff hfwd htype
  · intro i f hframe h
    exact Worker.idle_iff hframe h

/-- A worker with boot 7 and a controller. -/
def workerJoined : List Coordinator.Event :=
  [Coordinator.workerJoins 1 7, Coordinator.controllerJoins 2]

/-- An ALLOCATE with no payload at all, and an answer with none either. -/
def emptyExchange : Coordinator.Event :=
  .request (some ⟨.allocate, []⟩) (some ⟨.allocateResult, []⟩)

/-- A RELEASE that breaks off in its generation is ignored when its id is not
known; an answer of four bytes is read as a status; and a worker that holds
nothing frees nothing. -/
theorem malformed_ignored_joined :
    Coordinator.Ignores (run Coordinator.step {} workerJoined)
        (.request (some ⟨.release, [5, 0, 0, 0, 0, 0, 0, 0, 1]⟩) none) ∧
      Coordinator.NoneBecomesCurrent (run Coordinator.step {} workerJoined)
        ((run Coordinator.step {} workerJoined).step
          (.request (some ⟨.allocate, triple 5 1 64⟩) (some ⟨.allocateResult, [9, 0, 0, 0]⟩))).2 ∧
      Worker.Idle (run Worker.step {} [])
        ⟨some ⟨.release, [5, 0, 0, 0, 0, 0, 0, 0, 1]⟩, .error []⟩ := by
  obtain ⟨hrequest, hanswer, hworker⟩ := malformed_ignored_iff workerJoined []
  refine ⟨(hrequest _ none ⟨Or.inr rfl, by decide⟩).mpr ?_,
    (hanswer _ 5 1 64 ⟨.allocateResult, [9, 0, 0, 0]⟩ (by decide +kernel) rfl ?_).mpr
      (Or.inl (by decide +kernel)),
    (hworker _ _ rfl ⟨Or.inr rfl, by decide⟩).mpr ?_⟩
  · refine Or.inr (Or.inr (Or.inr ⟨rfl, fun a ha => ?_⟩))
    have hnone : (run Coordinator.step {} workerJoined).gAlloc = .empty := by decide +kernel
    rw [hnone] at ha
    simp at ha
  · intro id gen status e hread
    have hnone : Coordinator.readReply [9, 0, 0, 0] = none := by decide +kernel
    rw [hnone] at hread
    cases hread
  · exact Or.inr (Or.inr ⟨rfl, fun a ha => by simp [run] at ha⟩)

/-- An ALLOCATE without any field is forwarded, an answer without any field
makes entry 0 current, and the worker allocates on the same frame. -/
theorem emptyExchange_served :
    Truncated ⟨.allocate, []⟩ ∧
      ¬ Coordinator.Ignores (run Coordinator.step {} workerJoined) emptyExchange ∧
      Coordinator.Unfit 0 0 [] ∧
      ¬ Coordinator.NoneBecomesCurrent (run Coordinator.step {} workerJoined)
        ((run Coordinator.step {} workerJoined).step emptyExchange).2 ∧
      ¬ Worker.Idle (run Worker.step {} []) ⟨some ⟨.allocate, []⟩, .ok 4096⟩ := by
  refine ⟨⟨Or.inl rfl, by decide⟩, ?_, ?_, ?_, ?_⟩
  · intro h
    exact (h.sends (some 1) .allocate (triple 0 0 0) (by decide +kernel)).1 rfl
  · intro id gen status e hread
    have hnone : Coordinator.readReply [] = none := by decide +kernel
    rw [hnone] at hread
    cases hread
  · intro h
    have hthere := h 0 ⟨0, 0, 7, 0, true⟩ (by decide +kernel) rfl
    revert hthere
    decide +kernel
  · intro h
    cases h.1

end GpuMemoryService
