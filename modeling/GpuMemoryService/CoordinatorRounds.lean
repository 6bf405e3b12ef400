/-
GpuMemoryService.CoordinatorRounds — everything a step of the coordinator
can do.

Seen from the allocation table there are five kinds of steps: a worker
registers; an ALLOCATE is forwarded and answered; an ALLOCATE is forwarded
and the worker fails; a RELEASE is forwarded; and everything else, which
leaves the table, the registered worker and its boot alone. `registers`
and `forwarded` tell from the state and the event which it is, and
`step_round` is the only place where the handlers are opened.
-/
import GpuMemoryService.Lib.Run
import GpuMemoryService.Coordinator

namespace GpuMemoryService.Coordinator

open Lib Mp

/-! ## Kinds of events -/

/-- The connection and the boot of the worker that the event registers. -/
def registers (c : Coordinator) : Event → Option (Conn × UInt64)
  | .accept hs =>
      if c.stopped = false ∧ role hs.hello = some 2 then
        (registration hs.reg hs.cap).map (fun boot => (hs.conn, boot))
      else none
  | .request _ _ => none

/-- The request that the event forwards to the worker, and what comes back. -/
def forwarded (c : Coordinator) : Event → Option (Pending × Option Frame)
  | .accept _ => none
  | .request frame answer =>
      if c.stopped then none
      else do
        let ctrl ← c.ctrl
        let f ← frame
        let p ← (c.begin ctrl f).2.2
        pure (p, c.worker.bind (fun _ => answer))

/-- The type a forwarded request is answered with. -/
def resultType : Pending → Msg
  | .allocate _ _ _ => .allocateResult
  | .release _ _ _ => .releaseResult

/-- The table, the registered worker and its boot are as before. -/
structure SameTable (c c' : Coordinator) : Prop where
  worker : c'.worker = c.worker
  workerBoot : c'.workerBoot = c.workerBoot
  gAlloc : c'.gAlloc = c.gAlloc

/-- No RELEASE is sent. -/
def NoRelease (out : List Out) : Prop := ∀ dest payload, Out.send dest .release payload ∉ out

/-- What a step can do. -/
inductive Round (c : Coordinator) (e : Event) : List Out → Coordinator → Prop
  | quiet {out c'} (hreg : c.registers e = none) (hfwd : c.forwarded e = none)
      (hout : NoRelease out) (hsame : SameTable c c') : Round c e out c'
  | registered {out conn boot} (hreg : c.registers e = some (conn, boot))
      (hfwd : c.forwarded e = none) (hout : NoRelease out) :
      Round c e out { c with worker := some conn, workerBoot := boot }
  | granted {out id gen bytes answer res} (hreg : c.registers e = none)
      (hfwd : c.forwarded e = some (.allocate id gen bytes, answer))
      (hworker : c.worker ≠ none) (hboot : c.workerBoot ≠ 0)
      (hres : typed .allocateResult answer = some res) (hout : NoRelease out) :
      Round c e out
        { c with gAlloc :=
            c.gAlloc.insert id ⟨id, gen, c.workerBoot, bytes, (readResult res.payload).1 == 0⟩ }
  | dead {out id gen bytes answer} (hreg : c.registers e = none)
      (hfwd : c.forwarded e = some (.allocate id gen bytes, answer))
      (hres : typed .allocateResult answer = none) (hout : NoRelease out) :
      Round c e out
        { c with gAlloc := c.gAlloc.mapValues (fence c.workerBoot), worker := none, workerBoot := 0 }
  | released {out id gen boot answer a} (hreg : c.registers e = none)
      (hfwd : c.forwarded e = some (.release id gen boot, answer))
      (hfound : c.gAlloc.find? id = some a) (hgen : a.gen = gen) (hboot : a.boot = c.workerBoot)
      (hout : ∀ dest payload, Out.send dest .release payload ∈ out →
        dest = c.worker ∧ payload = triple id gen boot) : Round c e out c

/-! ## The handlers -/

section Handlers

variable {c : Coordinator}

theorem noRelease_nil : NoRelease [] := fun _ _ h => by cases h

theorem noRelease_closes (cs : List Conn) : NoRelease (cs.map .close) := by
  intro dest payload h
  obtain ⟨_, _, heq⟩ := List.mem_map.mp h
  cases heq

theorem NoRelease.append {out out' : List Out} (h : NoRelease out) (h' : NoRelease out') :
    NoRelease (out ++ out') := by
  intro dest payload hmem
  rcases List.mem_append.mp hmem with hin | hin
  · exact h dest payload hin
  · exact h' dest payload hin

theorem noRelease_send {dest : Option Conn} {type : Msg} {payload : Bytes} (h : type ≠ .release) :
    NoRelease [.send dest type payload] := by
  intro dest' payload' hmem
  cases List.mem_singleton.mp hmem
  exact h rfl

theorem noRelease_close (conn : Conn) : NoRelease [.close conn] := noRelease_closes [conn]

/-- How a handler begins: it is done, or has forwarded an ALLOCATE to a
worker with a boot, or a RELEASE of an entry of this boot. -/
inductive Begun (c : Coordinator) : List Out × Coordinator × Option Pending → Prop
  | done {out c'} (hout : NoRelease out) (hsame : SameTable c c') : Begun c (out, c', none)
  | allocate {id gen bytes} (hworker : c.worker ≠ none) (hboot : c.workerBoot ≠ 0) :
      Begun c ([.send c.worker .allocate (triple id gen bytes)], c, some (.allocate id gen bytes))
  | release {id gen boot a} (hfound : c.gAlloc.find? id = some a) (hgen : a.gen = gen)
      (hboot : a.boot = c.workerBoot) :
      Begun c ([.send c.worker .release (triple id gen boot)], c, some (.release id gen boot))

theorem begin_begun (c : Coordinator) (ctrl : Conn) (f : Frame) : Begun c (c.begin ctrl f) := by
  have hsame : SameTable c c := ⟨rfl, rfl, rfl⟩
  unfold begin
  split
  · rcases readTriple f.payload with ⟨id, gen, bytes⟩
    dsimp only
    split
    · exact .done (noRelease_send (by decide)) hsame
    · rename_i hready
      simp only [Bool.or_eq_true, not_or, Option.isNone_iff_eq_none, beq_iff_eq] at hready
      exact .allocate hready.1 hready.2
  · rcases readTriple f.payload with ⟨id, gen, boot⟩
    dsimp only
    split
    · exact .done (noRelease_send (by decide)) hsame
    · rename_i a hfound
      split
      · exact .done (noRelease_send (by decide)) hsame
      · rename_i hok
        simp only [Bool.or_eq_true, bne_iff_ne, not_or, not_not] at hok
        exact .release hfound hok.1 hok.2
  · exact .done (noRelease_send (by decide)) hsame
  · exact .done ((noRelease_closes _).append (noRelease_close _)) ⟨rfl, rfl, rfl⟩
  · exact .done noRelease_nil hsame

theorem finish_allocate_some (ctrl : Conn) (id gen bytes : UInt64) {answer : Option Frame}
    {res : Frame} (h : typed .allocateResult answer = some res) :
    (c.finish ctrl (.allocate id gen bytes) answer).2 =
        { c with gAlloc :=
          c.gAlloc.insert id ⟨id, gen, c.workerBoot, bytes, (readResult res.payload).1 == 0⟩ } ∧
      NoRelease (c.finish ctrl (.allocate id gen bytes) answer).1 := by
  simp only [finish, h]
  exact ⟨trivial, noRelease_send (by decide)⟩

theorem finish_allocate_none (ctrl : Conn) (id gen bytes : UInt64) {answer : Option Frame}
    (h : typed .allocateResult answer = none) :
    (c.finish ctrl (.allocate id gen bytes) answer).2 =
        { c with gAlloc := c.gAlloc.mapValues (fence c.workerBoot), worker := none, workerBoot := 0 } ∧
      NoRelease (c.finish ctrl (.allocate id gen bytes) answer).1 := by
  simp only [finish, h]
  exact ⟨trivial, (noRelease_closes _).append (noRelease_send (by decide))⟩

theorem finish_release (ctrl : Conn) (id gen boot : UInt64) (answer : Option Frame) :
    (c.finish ctrl (.release id gen boot) answer).2 = c ∧
      NoRelease (c.finish ctrl (.release id gen boot) answer).1 :=
  ⟨rfl, noRelease_send (by decide)⟩

end Handlers

/-! ## Steps -/

theorem accept_round {c : Coordinator} (hrun : c.stopped = false) (hs : Handshake) :
    Round c (.accept hs) (c.accept hs).1 (c.accept hs).2 := by
  have hsame : SameTable c c := ⟨rfl, rfl, rfl⟩
  have hnone : role hs.hello ≠ some 2 → c.registers (.accept hs) = none := by
    intro h
    simp [registers, h]
  unfold accept
  cases hrole : role hs.hello with
  | none => exact .quiet (hnone (by simp [hrole])) rfl (noRelease_close _) hsame
  | some r =>
      dsimp only
      split
      · rename_i h2
        subst h2
        cases hreg : registration hs.reg hs.cap with
        | none =>
            refine .quiet ?_ rfl (noRelease_close _) hsame
            simp [registers, hrun, hrole, hreg]
        | some boot =>
            refine .registered ?_ rfl (noRelease_closes _)
            simp [registers, hrun, hrole, hreg]
      · rename_i h2
        refine .quiet (hnone ?_) rfl (noRelease_closes _) ⟨rfl, rfl, rfl⟩
        rw [hrole]
        exact fun h => h2 (Option.some.inj h)

theorem request_round {c : Coordinator} (hrun : c.stopped = false) (frame answer : Option Frame) :
    Round c (.request frame answer) (c.request frame answer).1 (c.request frame answer).2 := by
  have hsame : SameTable c c := ⟨rfl, rfl, rfl⟩
  have hfwd : c.forwarded (.request frame answer) = (do
      let ctrl ← c.ctrl
      let f ← frame
      let p ← (c.begin ctrl f).2.2
      pure (p, c.worker.bind (fun _ => answer))) := by
    simp [forwarded, hrun]
  unfold request
  cases hctrl : c.ctrl with
  | none => exact .quiet rfl (by simp [hfwd, hctrl]) noRelease_nil hsame
  | some ctrl =>
      cases frame with
      | none => exact .quiet rfl (by simp [hfwd, hctrl]) (noRelease_close _) ⟨rfl, rfl, rfl⟩
      | some f =>
          have hbegun := begin_begun c ctrl f
          rcases hbegin : c.begin ctrl f with ⟨out, c', pending⟩
          simp only [hctrl, hbegin, Option.bind_eq_bind, Option.bind_some] at hfwd
          rw [hbegin] at hbegun
          dsimp only
          rw [hbegin]
          cases hbegun with
          | done hout hsame' => exact .quiet rfl hfwd hout hsame'
          | @allocate id gen bytes hworker hboot =>
              dsimp only
              cases hres : typed .allocateResult (c.worker.bind (fun _ => answer)) with
              | some res =>
                  obtain ⟨hstate, hout⟩ := finish_allocate_some (c := c) ctrl id gen bytes hres
                  rw [hstate]
                  exact .granted rfl hfwd hworker hboot hres
                    ((noRelease_send (by decide)).append hout)
              | none =>
                  obtain ⟨hstate, hout⟩ := finish_allocate_none (c := c) ctrl id gen bytes hres
                  rw [hstate]
                  exact .dead rfl hfwd hres ((noRelease_send (by decide)).append hout)
          | @release id gen boot a hfound hgen hboot =>
              obtain ⟨hstate, hout⟩ := finish_release (c := c) ctrl id gen boot
                (c.worker.bind (fun _ => answer))
              dsimp only
              rw [hstate]
              refine .released rfl hfwd hfound hgen hboot (fun dest payload hmem => ?_)
              rcases List.mem_append.mp hmem with hin | hin
              · cases List.mem_singleton.mp hin
                exact ⟨rfl, rfl⟩
              · exact absurd hin (hout dest payload)

/-- **Every step is a round.** -/
theorem step_round (c : Coordinator) (e : Event) : Round c e (c.step e).1 (c.step e).2 := by
  unfold step
  cases hstop : c.stopped with
  | true =>
      refine .quiet ?_ ?_ noRelease_nil ⟨rfl, rfl, rfl⟩
      · cases e <;> simp [registers, hstop]
      · cases e <;> simp [forwarded, hstop]
  | false =>
      cases e with
      | accept hs => exact accept_round hstop hs
      | request frame answer => exact request_round hstop frame answer

/-! ## Histories -/

/-- A step that also reports the state it was made in. -/
def watch (c : Coordinator) (e : Event) : (Coordinator × List Out) × Coordinator :=
  ((c, (c.step e).1), (c.step e).2)

/-- The events so far, each with the state before it and what was done. -/
abbrev History := List (Event × Coordinator × List Out)

end GpuMemoryService.Coordinator
