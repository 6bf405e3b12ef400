/-
GpuMemoryService.CoordinatorConnections — the sockets of the coordinator,
and its replies (`coordinator.cpp`).

`connections_settled`: over every run, with connections accepted, refused,
replaced and lost in any order, the coordinator sends only on connections
that are open, closes each at most once, and at every moment exactly its
controller and its worker are open; after SHUTDOWN none is.

`replies_in_order`: every ALLOCATE, RELEASE and QUERY a controller sends is
answered on its own connection, once, with the matching result type and the
id and generation it carries, and in the order of the requests; a worker
gets nothing but ALLOCATE and RELEASE frames. In particular no worker is
ever told to shut down.
-/
import Mathlib.Data.Finset.Insert
import Mathlib.Data.List.Forall2
import GpuMemoryService.Lib.Lifetimes
import GpuMemoryService.CoordinatorTheorems

namespace GpuMemoryService.Coordinator

open Lib Mp

/-! ## Connections as things that are acquired and released -/

/-- Sending uses a connection, and closing releases it. The invalid socket
is never acquired, so sending to it would be a mistake. -/
def outUse : Out → Use (Option Conn)
  | .send dest _ _ => .touch dest
  | .close conn => .release (some conn)

/-- What an event does with connections. -/
def eventUses (x : Event × Coordinator × List Out) : List (Use (Option Conn)) :=
  match x.1 with
  | .accept hs => if x.2.1.stopped then [] else .acquire (some hs.conn) :: x.2.2.map outUse
  | .request _ _ => x.2.2.map outUse

def uses (t : History) : List (Use (Option Conn)) := t.flatMap eventUses

/-- The connections the coordinator has: its controller and its worker. -/
def held (c : Coordinator) : Finset (Option Conn) :=
  if c.stopped then ∅ else ({c.ctrl, c.worker} : Finset (Option Conn)).erase none

/-- A connection that is accepted is not one that is open already. -/
def NewConn (c : Coordinator) : Event → Prop
  | .accept hs => some hs.conn ∉ c.held
  | .request _ _ => True

instance (c : Coordinator) : (e : Event) → Decidable (NewConn c e)
  | .accept hs => inferInstanceAs (Decidable (some hs.conn ∉ c.held))
  | .request _ _ => isTrue trivial

/-- No connection is both controller and worker. -/
def Apart (c : Coordinator) : Prop := ∀ k, c.ctrl = some k → c.worker ≠ some k

theorem mem_held {c : Coordinator} (hrun : c.stopped = false) {k : Conn} :
    some k ∈ c.held ↔ c.ctrl = some k ∨ c.worker = some k := by
  simp [held, hrun, eq_comm]

theorem none_notMem_held (c : Coordinator) : none ∉ c.held := by
  unfold held
  split
  · simp
  · simp

/-- Two running coordinators hold the same when they hold the same sockets. -/
theorem held_eq_iff {c : Coordinator} (hrun : c.stopped = false) {s : Finset (Option Conn)}
    (hnone : none ∉ s) (h : ∀ k, some k ∈ s ↔ c.ctrl = some k ∨ c.worker = some k) :
    s = c.held := by
  ext x
  cases x with
  | none => exact iff_of_false hnone (none_notMem_held c)
  | some k => rw [h, mem_held hrun]

section Steps

variable {c : Coordinator} {s : Finset (Option Conn)} {us : List (Use (Option Conn))}

/-- Closing a connection that there may be. -/
theorem live_close {o : Option Conn} (hnone : none ∉ s) (ho : ∀ k, o = some k → some k ∈ s) :
    live s ((o.toList.map Out.close).map outUse ++ us) = live (s.erase o) us := by
  cases o with
  | none =>
      rw [Finset.erase_eq_of_notMem hnone]
      rfl
  | some k => exact live_release (ho k rfl) us

theorem accept_live (hrun : c.stopped = false) (hapart : Apart c) {hs : Handshake}
    (hnew : some hs.conn ∉ c.held) :
    live c.held (.acquire (some hs.conn) :: (c.accept hs).1.map outUse) = some (c.accept hs).2.held ∧
      Apart (c.accept hs).2 := by
  have hnew' := (not_congr (mem_held hrun)).mp hnew
  push Not at hnew'
  have hrefused : live c.held (.acquire (some hs.conn) :: [Out.close hs.conn].map outUse)
      = some c.held := by
    rw [live_acquire hnew, List.map_singleton, outUse, live_release (by simp), live_nil,
      Finset.erase_insert hnew]
  -- the new connection takes the place of the old one of its role
  have hreplaced : ∀ {o : Option Conn} {c' : Coordinator}, c'.stopped = false →
      (∀ k, o = some k → some k ∈ c.held) → (∀ k, some k ∈ (insert (some hs.conn) c.held).erase o ↔
        c'.ctrl = some k ∨ c'.worker = some k) →
      live c.held (.acquire (some hs.conn) :: (o.toList.map Out.close).map outUse)
        = some c'.held := by
    intro o c' hrun' ho hafter
    rw [live_acquire hnew, ← List.append_nil ((o.toList.map Out.close).map outUse),
      live_close (by simp [none_notMem_held]) (fun k hk => Finset.mem_insert_of_mem (ho k hk)),
      live_nil]
    exact congrArg some (held_eq_iff hrun' (by simp [none_notMem_held]) hafter)
  unfold accept
  split
  · exact ⟨hrefused, hapart⟩
  split
  · split
    · exact ⟨hrefused, hapart⟩
    · refine ⟨hreplaced hrun (fun k hk => (mem_held hrun).mpr (Or.inr hk)) (fun k => ?_),
        fun k hk hw => ?_⟩
      · simp only [Finset.mem_erase, Finset.mem_insert, mem_held hrun, Option.some.injEq]
        have := hapart k
        grind
      · cases hw
        exact hnew'.1 hk
  · refine ⟨hreplaced hrun (fun k hk => (mem_held hrun).mpr (Or.inl hk)) (fun k => ?_),
      fun k hk hw => ?_⟩
    · simp only [Finset.mem_erase, Finset.mem_insert, mem_held hrun, Option.some.injEq]
      have := hapart k
      grind
    · cases hk
      exact hnew'.2 hw

end Steps

/-! ## What a controller frame leads to -/

/-- The type a controller frame is answered with, if it is. -/
def resultOf (f : Frame) : Option Msg :=
  match f.type with
  | .allocate => some .allocateResult
  | .release => some .releaseResult
  | .query => some .queryResult
  | _ => none

/-- `r` answers `f`: it has the type of the result, and but for QUERY names
the id and the generation of the request. -/
def Answers (f r : Frame) : Prop :=
  resultOf f = some r.type ∧
    (f.type ≠ .query → ∃ status e,
      r.payload = resultPayload (readTriple f.payload).1 (readTriple f.payload).2.1 status e)

/-- The sockets and the end of the process are as before. -/
structure SameSockets (c c' : Coordinator) : Prop where
  ctrl : c'.ctrl = c.ctrl
  worker : c'.worker = c.worker
  stopped : c'.stopped = c.stopped

/-- Everything the frame `f` of the controller `k` can lead to. -/
inductive Exchange (c : Coordinator) (k : Conn) (f : Frame) : List Out → Coordinator → Prop
  | ignored (hf : resultOf f = none) : Exchange c k f [] c
  | shutdown (hf : f.type = .shutdown) :
      Exchange c k f (c.worker.toList.map .close ++ [.close k]) { c with stopped := true }
  | answered {r : Frame} (hr : Answers f r) : Exchange c k f [.send (some k) r.type r.payload] c
  | forwarded {w : Conn} {q r : Frame} {c' : Coordinator} (hw : c.worker = some w)
      (hq : q.type = .allocate ∨ q.type = .release) (hr : Answers f r) (hsame : SameSockets c c') :
      Exchange c k f
        [.send (some w) q.type q.payload, .send (some k) r.type r.payload] c'
  | lost {w : Conn} {q r : Frame} {c' : Coordinator} (hw : c.worker = some w)
      (hq : q.type = .allocate ∨ q.type = .release) (hr : Answers f r) (hctrl : c'.ctrl = c.ctrl)
      (hworker : c'.worker = none) (hstop : c'.stopped = c.stopped) :
      Exchange c k f
        [.send (some w) q.type q.payload, .close w, .send (some k) r.type r.payload] c'

/-- What the request handler needs to know about the table: without a worker
there is no boot, and no entry is of boot 0. -/
structure Bound (c : Coordinator) : Prop where
  idle : c.worker = none → c.workerBoot = 0
  boots : ∀ id a, c.gAlloc.find? id = some a → a.boot ≠ 0

/-- Without a pending answer the first half of a handler is all of it. -/
theorem request_done {c c' : Coordinator} {k : Conn} (hk : c.ctrl = some k) {f : Frame}
    {out : List Out} (hbegin : c.begin k f = (out, c', none)) (answer : Option Frame) :
    c.request (some f) answer = (out, c') := by
  simp only [request, hk, hbegin]

theorem request_pending {c : Coordinator} {k w : Conn} (hk : c.ctrl = some k)
    (hw : c.worker = some w) {f : Frame} {out : List Out} {p : Pending}
    (hbegin : c.begin k f = (out, c, some p)) (answer : Option Frame) :
    c.request (some f) answer = (out ++ (c.finish k p answer).1, (c.finish k p answer).2) := by
  simp only [request, hk, hbegin, hw, Option.bind_some]

theorem allocate_exchange {c : Coordinator} {k : Conn} (hk : c.ctrl = some k) {f : Frame}
    (htype : f.type = .allocate) (answer : Option Frame) :
    Exchange c k f (c.request (some f) answer).1 (c.request (some f) answer).2 := by
  rcases hread : readTriple f.payload with ⟨id, gen, bytes⟩
  have hans : ∀ status e, Answers f ⟨.allocateResult, resultPayload id gen status e⟩ :=
    fun status e => ⟨by simp [resultOf, htype], fun _ => ⟨status, e, by rw [hread]⟩⟩
  by_cases hready : (c.worker.isNone || c.workerBoot == 0) = true
  · rw [request_done hk (by simp only [begin, htype, hread, if_pos hready]; rfl)]
    exact .answered (hans _ _)
  · obtain ⟨w, hw⟩ : ∃ w, c.worker = some w := by
      cases hw : c.worker with
      | none => simp [hw] at hready
      | some w => exact ⟨w, rfl⟩
    rw [request_pending hk hw (by simp only [begin, htype, hread, if_neg hready]; rfl), hw]
    cases hres : typed .allocateResult answer with
    | none =>
        simp only [finish, hres, hw]
        exact .lost (q := ⟨.allocate, triple id gen bytes⟩) hw (Or.inl rfl) (hans _ _) rfl rfl rfl
    | some res =>
        simp only [finish, hres]
        exact .forwarded (q := ⟨.allocate, triple id gen bytes⟩) hw (Or.inl rfl) (hans _ _)
          ⟨rfl, rfl, rfl⟩

theorem release_exchange {c : Coordinator} (hbound : Bound c) {k : Conn} (hk : c.ctrl = some k)
    {f : Frame} (htype : f.type = .release) (answer : Option Frame) :
    Exchange c k f (c.request (some f) answer).1 (c.request (some f) answer).2 := by
  rcases hread : readTriple f.payload with ⟨id, gen, boot⟩
  have hans : ∀ status e, Answers f ⟨.releaseResult, resultPayload id gen status e⟩ :=
    fun status e => ⟨by simp [resultOf, htype], fun _ => ⟨status, e, by rw [hread]⟩⟩
  cases hfound : c.gAlloc.find? id with
  | none =>
      rw [request_done hk (by simp only [begin, htype, hread, hfound]; rfl)]
      exact .answered (hans _ _)
  | some a =>
      by_cases hstale : (a.gen != gen || a.boot != c.workerBoot) = true
      · rw [request_done hk (by simp only [begin, htype, hread, hfound, if_pos hstale]; rfl)]
        exact .answered (hans _ _)
      · obtain ⟨w, hw⟩ : ∃ w, c.worker = some w := by
          -- an entry has a boot, and without a worker there is none
          refine Option.ne_none_iff_exists'.mp (fun hnone => hbound.boots id a hfound ?_)
          simp only [Bool.or_eq_true, bne_iff_ne, not_or, not_not] at hstale
          rw [hstale.2, hbound.idle hnone]
        rw [request_pending hk hw (by simp only [begin, htype, hread, hfound, if_neg hstale]; rfl), hw]
        exact .forwarded (q := ⟨.release, triple id gen boot⟩) hw (Or.inr rfl) (hans _ _)
          ⟨rfl, rfl, rfl⟩

/-- **Every controller frame** is ignored, ends the process, or is answered,
with or without asking the worker first. -/
theorem request_exchange {c : Coordinator} (hbound : Bound c) {k : Conn} (hk : c.ctrl = some k)
    (f : Frame) (answer : Option Frame) :
    Exchange c k f (c.request (some f) answer).1 (c.request (some f) answer).2 := by
  cases htype : f.type with
  | allocate => exact allocate_exchange hk htype answer
  | release => exact release_exchange hbound hk htype answer
  | query =>
      rw [request_done hk (by simp only [begin, htype]; rfl)]
      exact .answered (r := ⟨.queryResult, _⟩) ⟨by simp [resultOf, htype], fun h => absurd htype h⟩
  | shutdown =>
      rw [request_done hk (by simp only [begin, htype]; rfl)]
      exact .shutdown htype
  | _ =>
      rw [request_done hk (by simp only [begin, htype]; rfl)]
      exact .ignored (by simp [resultOf, htype])

/-! ## Connections over whole runs -/

section Live

variable {c c' : Coordinator} {k : Conn} {f : Frame} {out : List Out}

theorem SameSockets.held (h : SameSockets c c') : c'.held = c.held := by
  simp only [Coordinator.held, h.ctrl, h.worker, h.stopped]

theorem Exchange.live (hrun : c.stopped = false) (hapart : Apart c) (hk : c.ctrl = some k)
    (h : Exchange c k f out c') : live c.held (out.map outUse) = some c'.held ∧ Apart c' := by
  have hctrl : some k ∈ c.held := (mem_held hrun).mpr (Or.inl hk)
  cases h with
  | ignored _ => exact ⟨rfl, hapart⟩
  | shutdown _ =>
      refine ⟨?_, hapart⟩
      have hopen : some k ∈ c.held.erase c.worker :=
        Finset.mem_erase.mpr ⟨fun hw => hapart k hk hw.symm, hctrl⟩
      rw [List.map_append,
        live_close (none_notMem_held c) (fun j hj => (mem_held hrun).mpr (Or.inr hj)),
        List.map_singleton, outUse, live_release hopen, live_nil]
      congr 1
      simp only [held, hrun, hk]
      ext x
      simp
      tauto
  | answered _ => exact ⟨live_touch hctrl [], hapart⟩
  | @forwarded w q r c' hw _ _ hsame =>
      have hworker : some w ∈ c.held := (mem_held hrun).mpr (Or.inr hw)
      refine ⟨?_, fun j hj => ?_⟩
      · rw [List.map_cons, outUse, live_touch hworker, List.map_singleton, outUse,
          live_touch hctrl, live_nil, hsame.held]
      · rw [hsame.ctrl] at hj
        rw [hsame.worker]
        exact hapart j hj
  | @lost w q r c' hw _ _ hctrl' hworker' hstop =>
      have hworker : some w ∈ c.held := (mem_held hrun).mpr (Or.inr hw)
      have hne : w ≠ k := fun heq => hapart k hk (heq ▸ hw)
      have hopen : some k ∈ c.held.erase (some w) :=
        Finset.mem_erase.mpr ⟨fun heq => hne (Option.some.inj heq).symm, hctrl⟩
      refine ⟨?_, fun j _ hj => by rw [hworker'] at hj; cases hj⟩
      rw [List.map_cons, outUse, live_touch hworker, List.map_cons, outUse, live_release hworker,
        List.map_singleton, outUse, live_touch hopen, live_nil]
      refine congrArg some (held_eq_iff (hstop.trans hrun) ?_ (fun j => ?_))
      · exact fun hmem => none_notMem_held c (Finset.mem_of_mem_erase hmem)
      · rw [Finset.mem_erase, mem_held hrun, hctrl', hworker', hw, hk]
        grind

/-- **One event** keeps to what is open. -/
theorem step_live (hbound : Bound c) (hapart : Apart c) {e : Event} (hnew : NewConn c e) :
    live c.held (eventUses (e, c, (c.step e).1)) = some (c.step e).2.held ∧ Apart (c.step e).2 := by
  unfold step
  cases hstop : c.stopped with
  | true =>
      refine ⟨?_, hapart⟩
      cases e with
      | accept hs => simp [eventUses, hstop]
      | request frame answer => rfl
  | false =>
      cases e with
      | accept hs =>
          simp only [eventUses, hstop, Bool.false_eq_true, if_false]
          exact accept_live hstop hapart hnew
      | request frame answer =>
          simp only [eventUses, Bool.false_eq_true, if_false]
          cases hctrl : c.ctrl with
          | none =>
              simp only [request, hctrl]
              exact ⟨rfl, hapart⟩
          | some k =>
              cases frame with
              | none =>
                  have hk : some k ∈ c.held := (mem_held hstop).mpr (Or.inl hctrl)
                  simp only [request, hctrl, List.map_singleton, outUse]
                  rw [live_release hk, live_nil]
                  refine ⟨congrArg some (held_eq_iff (c := { c with ctrl := none }) hstop ?_ (fun j => ?_)), nofun⟩
                  · exact fun hmem => none_notMem_held c (Finset.mem_of_mem_erase hmem)
                  · rw [Finset.mem_erase, mem_held hstop, hctrl]
                    have := hapart k hctrl
                    grind
              | some f => exact (request_exchange hbound hctrl f answer).live hstop hapart hctrl

end Live

theorem Accounted.bound {t : History} {c : Coordinator} (h : Accounted t c) : Bound c :=
  ⟨h.idle, h.boots⟩

theorem run_live {events : List Event} (hnew : Guarded watch NewConn {} events) :
    live ∅ (uses (trace watch {} events)) = some (run watch {} events).held ∧
      Apart (run watch {} events) := by
  have h := hnew.trace_inv
    (P := fun t c => Accounted t c ∧ live ∅ (uses t) = some c.held ∧ Apart c)
    ⟨run_accounted [], by decide, nofun⟩ (fun t c e h hnew => ?_)
  · exact h.2
  · obtain ⟨hacc, hlive, hapart⟩ := h
    obtain ⟨hstep, hapart'⟩ := step_live hacc.bound hapart hnew
    refine ⟨accounted_step hacc e, ?_, hapart'⟩
    rw [uses, List.flatMap_append, List.flatMap_singleton]
    exact live_trans hlive hstep

/-- **Every socket is closed once.** In every run in which a connection is
accepted only while it is not open: frames are sent on open connections
only, a connection is closed only while it is open, and each was closed as
often as it was accepted, but for the controller and the worker of the
moment, and for none after SHUTDOWN. -/
theorem connections_settled (events : List Event) (hnew : Guarded watch NewConn {} events) :
    live ∅ (uses (trace watch {} events)) = some (run watch {} events).held ∧
      ∀ conn, (uses (trace watch {} events)).count (.acquire (some conn))
        = (uses (trace watch {} events)).count (.release (some conn)) +
          if (run watch {} events).stopped = false ∧ ((run watch {} events).ctrl = some conn ∨
            (run watch {} events).worker = some conn) then 1 else 0 := by
  obtain ⟨hlive, _⟩ := run_live hnew
  refine ⟨hlive, fun conn => ?_⟩
  have hcount := live_count hlive (some conn)
  rw [if_neg (Finset.notMem_empty _), Nat.add_zero] at hcount
  rw [hcount]
  congr 2
  cases hstop : (run watch {} events).stopped with
  | true => simp [held, hstop]
  | false => simp [mem_held hstop]

/-- A worker is replaced and fails, a controller is replaced, and SHUTDOWN. -/
def busyRun : List Event :=
  [workerJoins 1 7, controllerJoins 2, allocates 5 1 4096 0, workerJoins 3 9,
   .request (some ⟨.allocate, triple 6 1 64⟩) none, controllerJoins 4,
   .request (some ⟨.shutdown, []⟩) none]

theorem connections_settled_busyRun :
    Guarded watch NewConn {} busyRun ∧
      live ∅ (uses (trace watch {} busyRun)) = some ∅ :=
  have hnew : Guarded watch NewConn {} busyRun := by decide +kernel
  ⟨hnew, (connections_settled busyRun hnew).1.trans (by decide +kernel)⟩

/-! ## Replies -/

/-- The frame an action sends on connection `k`. -/
def frameOn (k : Conn) : Out → Option Frame
  | .send dest type payload => if dest = some k then some ⟨type, payload⟩ else none
  | .close _ => none

/-- The frames sent on a connection. -/
def sentOn (k : Conn) (out : List Out) : List Frame := out.filterMap (frameOn k)

/-- The frame of controller `k` that an event answers. -/
def requestFrom (k : Conn) (x : Event × Coordinator × List Out) : Option Frame :=
  match x.1 with
  | .accept _ => none
  | .request frame _ =>
      if x.2.1.stopped = false ∧ x.2.1.ctrl = some k then
        frame.filter (fun f => (resultOf f).isSome)
      else none

/-- What is sent on the connection of controller `k` while it is the
controller. -/
def repliesTo (k : Conn) (x : Event × Coordinator × List Out) : List Frame :=
  if x.2.1.ctrl = some k then sentOn k x.2.2 else []

/-- Frames go to the controller and are results, or to the worker and are
requests. -/
def Addressed (x : Event × Coordinator × List Out) : Prop :=
  ∀ dest type payload, Out.send dest type payload ∈ x.2.2 →
    (dest = x.2.1.ctrl ∧ (type = .allocateResult ∨ type = .releaseResult ∨ type = .queryResult)) ∨
    (dest = x.2.1.worker ∧ (type = .allocate ∨ type = .release))

section Replies

variable {c c' : Coordinator} {k : Conn} {f : Frame} {out : List Out}

/-- What a controller frame is answered with, on its own connection. -/
theorem Exchange.replies (hapart : Apart c) (hk : c.ctrl = some k) (h : Exchange c k f out c') :
    List.Forall₂ Answers (((some f).filter (fun f => (resultOf f).isSome)).toList) (sentOn k out) := by
  have hother : ∀ {w}, c.worker = some w → (some w = some k) = False := fun hw =>
    eq_false (fun heq => hapart k hk (hw.trans heq))
  have hone : ∀ {r}, Answers f r →
      List.Forall₂ Answers (((some f).filter (fun f => (resultOf f).isSome)).toList) [r] := by
    intro r hr
    rw [Option.filter_some_pos (by rw [hr.1]; rfl)]
    exact .cons hr .nil
  cases h with
  | ignored hf => simp [sentOn, hf]
  | shutdown hf =>
      have hsent : sentOn k (c.worker.toList.map .close ++ [.close k]) = [] := by
        cases c.worker <;> rfl
      rw [hsent]
      simp [resultOf, hf]
  | answered hr => simpa [sentOn, frameOn] using hone hr
  | forwarded hw _ hr _ => simpa [sentOn, frameOn, hother hw] using hone hr
  | lost hw _ hr _ _ _ => simpa [sentOn, frameOn, List.filterMap_cons, hother hw] using hone hr

theorem Exchange.addressed (hk : c.ctrl = some k) (h : Exchange c k f out c') (e : Event) :
    Addressed (e, c, out) := by
  have hresult : ∀ {r}, Answers f r →
      r.type = .allocateResult ∨ r.type = .releaseResult ∨ r.type = .queryResult := by
    intro r hr
    have htype := hr.1
    unfold resultOf at htype
    split at htype <;> simp_all
  intro dest type payload hmem
  cases h with
  | ignored _ => cases hmem
  | shutdown _ =>
      rw [List.mem_append] at hmem
      simp at hmem
  | answered hr =>
      cases List.mem_singleton.mp hmem
      exact Or.inl ⟨hk.symm, hresult hr⟩
  | forwarded hw hq hr _ =>
      simp only [List.mem_cons, List.not_mem_nil, or_false, Out.send.injEq] at hmem
      rcases hmem with ⟨rfl, rfl, _⟩ | ⟨rfl, rfl, _⟩
      · exact Or.inr ⟨hw.symm, hq⟩
      · exact Or.inl ⟨hk.symm, hresult hr⟩
  | lost hw hq hr _ _ _ =>
      simp only [List.mem_cons, List.not_mem_nil, or_false, Out.send.injEq, reduceCtorEq,
        false_or] at hmem
      rcases hmem with ⟨rfl, rfl, _⟩ | ⟨rfl, rfl, _⟩
      · exact Or.inr ⟨hw.symm, hq⟩
      · exact Or.inl ⟨hk.symm, hresult hr⟩

theorem accept_sends_nothing (hs : Handshake) (dest : Option Conn) (type : Msg) (payload : Bytes) :
    Out.send dest type payload ∉ (c.accept hs).1 := by
  unfold accept
  split
  · simp
  split
  · split
    · simp
    · simp
  · simp

theorem sentOn_eq_nil (h : ∀ dest type payload, Out.send dest type payload ∉ out) :
    sentOn k out = [] := by
  rw [sentOn, List.filterMap_eq_nil_iff]
  intro o ho
  cases o with
  | send dest type payload => exact absurd ho (h dest type payload)
  | close _ => rfl

/-- **One event** answers what it is asked, to the one who asked. -/
theorem step_replies (hbound : Bound c) (hapart : Apart c) (e : Event) :
    (∀ k, List.Forall₂ Answers (requestFrom k (e, c, (c.step e).1)).toList
      (repliesTo k (e, c, (c.step e).1))) ∧ Addressed (e, c, (c.step e).1) := by
  have hsilent : ∀ {out}, (∀ k, requestFrom k (e, c, out) = none) →
      (∀ dest type payload, Out.send dest type payload ∉ out) →
      (∀ k, List.Forall₂ Answers (requestFrom k (e, c, out)).toList (repliesTo k (e, c, out))) ∧
        Addressed (e, c, out) := by
    intro out hnone hout
    refine ⟨fun k => ?_, fun dest type payload hmem => absurd hmem (hout dest type payload)⟩
    rw [hnone k, repliesTo, sentOn_eq_nil hout, ite_self]
    exact .nil
  unfold step
  cases hstop : c.stopped with
  | true =>
      refine hsilent (fun k => ?_) (by simp)
      cases e <;> simp [requestFrom, hstop]
  | false =>
      cases e with
      | accept hs => exact hsilent (fun k => rfl) (accept_sends_nothing hs)
      | request frame answer =>
          simp only [Bool.false_eq_true, if_false]
          cases hctrl : c.ctrl with
          | none =>
              simp only [request, hctrl]
              exact hsilent (fun k => by simp [requestFrom, hctrl]) (by simp)
          | some k =>
              cases frame with
              | none =>
                  simp only [request, hctrl]
                  exact hsilent (fun j => by simp [requestFrom]) (by simp)
              | some f =>
                  have hex := request_exchange hbound hctrl f answer
                  refine ⟨fun j => ?_, hex.addressed hctrl _⟩
                  simp only [requestFrom, repliesTo, hstop, hctrl, Option.some.injEq, true_and]
                  by_cases hj : k = j
                  · subst hj
                    simpa using hex.replies hapart hctrl
                  · simp [hj]

end Replies

/-- **Replies in order.** In every run in which a connection is accepted only
while it is not open, and for every connection `k`: what was sent on it while
it was the controller's answers, one by one and in order, the ALLOCATE,
RELEASE and QUERY frames it had sent; and nothing else was sent but ALLOCATE
and RELEASE frames to the worker of the moment. -/
theorem replies_in_order (events : List Event) (hnew : Guarded watch NewConn {} events) :
    (∀ k, List.Forall₂ Answers ((trace watch {} events).filterMap (requestFrom k))
      ((trace watch {} events).flatMap (repliesTo k))) ∧
    ∀ x ∈ trace watch {} events, Addressed x := by
  have h := hnew.trace_inv
    (P := fun t c => Accounted t c ∧ Apart c ∧
      (∀ k, List.Forall₂ Answers (t.filterMap (requestFrom k)) (t.flatMap (repliesTo k))) ∧
      ∀ x ∈ t, Addressed x)
    ⟨run_accounted [], nofun, fun k => .nil, fun x hx => by cases hx⟩ (fun t c e h hnew => ?_)
  · exact h.2.2
  · obtain ⟨hacc, hapart, hreplies, haddr⟩ := h
    obtain ⟨hstep, haddr'⟩ := step_replies hacc.bound hapart e
    refine ⟨accounted_step hacc e, (step_live hacc.bound hapart hnew).2, fun k => ?_, fun x hx => ?_⟩
    · rw [List.filterMap_append, List.flatMap_append, List.flatMap_singleton]
      refine List.rel_append (hreplies k) ?_
      have hlast : ([(e, (watch c e).1)] : History).filterMap (requestFrom k)
          = (requestFrom k (e, (watch c e).1)).toList := by
        cases h : requestFrom k (e, (watch c e).1) <;> simp [h]
      rw [hlast]
      exact hstep k
    · rcases List.mem_append.mp hx with hx | hx
      · exact haddr x hx
      · rw [List.mem_singleton.mp hx]
        exact haddr'

theorem replies_in_order_busyRun :
    Guarded watch NewConn {} busyRun ∧
      ((trace watch {} busyRun).filterMap (requestFrom 2)).map (·.type) = [.allocate, .allocate] ∧
      List.Forall₂ Answers ((trace watch {} busyRun).filterMap (requestFrom 2))
        ((trace watch {} busyRun).flatMap (repliesTo 2)) :=
  have hnew : Guarded watch NewConn {} busyRun := by decide +kernel
  ⟨hnew, by decide +kernel, (replies_in_order busyRun hnew).1 2⟩

end GpuMemoryService.Coordinator
