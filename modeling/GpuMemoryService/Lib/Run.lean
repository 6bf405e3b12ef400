/-
GpuMemoryService.Lib.Run — runs of a machine that answers calls.

A machine is a function `step : σ → κ → ρ × σ`: a call made in a state has
a reply and a next state. `run` is the state after a list of calls,
`trace` the calls with their replies, in order, and `Guarded g` says that
each call satisfied `g` in the state it was made in.

Four rules carry every result about whole runs. `Guarded.run_inv` is for
properties of the state alone. `Guarded.trace_inv` is for properties that
relate the state to what has happened so far; its step extends the trace at
the end, so a property defined by a left fold over the trace unfolds there.
`throughout_iff_within` is for properties some calls break: when one call
keeps the property exactly if it meets a condition, a whole run does exactly
if every call of it meets the condition. `replies_related` is for two machines
that are given the same calls.
-/
import Mathlib.Data.List.Induction

namespace GpuMemoryService.Lib

universe u v w

variable {σ : Type u} {κ : Type v} {ρ : Type w}

section

variable (step : σ → κ → ρ × σ)

/-- The state after the calls. -/
def run (s : σ) : List κ → σ
  | [] => s
  | c :: cs => run (step s c).2 cs

/-- The calls with their replies, oldest first. -/
def trace (s : σ) : List κ → List (κ × ρ)
  | [] => []
  | c :: cs => (c, (step s c).1) :: trace (step s c).2 cs

/-- Every call satisfies `g` in the state it is made in. -/
def Guarded (g : σ → κ → Prop) (s : σ) : List κ → Prop
  | [] => True
  | c :: cs => g s c ∧ Guarded g (step s c).2 cs

/-- `P` relates trace and state after every prefix of the calls. -/
def Throughout (P : List (κ × ρ) → σ → Prop) (s : σ) (cs : List κ) : Prop :=
  ∀ pre, pre <+: cs → P (trace step s pre) (run step s pre)

end

variable {step : σ → κ → ρ × σ}

instance Guarded.decidable (g : σ → κ → Prop) [∀ s c, Decidable (g s c)] (s : σ) :
    (cs : List κ) → Decidable (Guarded step g s cs)
  | [] => isTrue trivial
  | c :: cs => @instDecidableAnd (g s c) _ _ (Guarded.decidable g (step s c).2 cs)

@[simp] theorem run_nil (s : σ) : run step s [] = s := rfl

@[simp] theorem trace_nil (s : σ) : trace step s [] = [] := rfl

theorem run_append (s : σ) (cs ds : List κ) :
    run step s (cs ++ ds) = run step (run step s cs) ds := by
  induction cs generalizing s with
  | nil => rfl
  | cons c cs ih => exact ih _

theorem trace_append (s : σ) (cs ds : List κ) :
    trace step s (cs ++ ds) = trace step s cs ++ trace step (run step s cs) ds := by
  induction cs generalizing s with
  | nil => rfl
  | cons c cs ih =>
      simp only [List.cons_append, trace, run, ih]

theorem run_concat (s : σ) (cs : List κ) (c : κ) :
    run step s (cs ++ [c]) = (step (run step s cs) c).2 := by
  rw [run_append]
  rfl

theorem trace_concat (s : σ) (cs : List κ) (c : κ) :
    trace step s (cs ++ [c]) = trace step s cs ++ [(c, (step (run step s cs) c).1)] := by
  rw [trace_append]
  rfl

theorem guarded_append {g : σ → κ → Prop} {s : σ} {cs ds : List κ} :
    Guarded step g s (cs ++ ds) ↔ Guarded step g s cs ∧ Guarded step g (run step s cs) ds := by
  induction cs generalizing s with
  | nil => simp [Guarded, run]
  | cons c cs ih => simp only [List.cons_append, Guarded, run, ih, and_assoc]

theorem guarded_concat {g : σ → κ → Prop} {s : σ} {cs : List κ} {c : κ} :
    Guarded step g s (cs ++ [c]) ↔ Guarded step g s cs ∧ g (run step s cs) c := by
  rw [guarded_append]
  simp [Guarded]

/-- A weaker guard holds where a stronger one does. -/
theorem Guarded.mono {g g' : σ → κ → Prop} {s : σ} {cs : List κ} (h : Guarded step g s cs)
    (himp : ∀ s c, g s c → g' s c) : Guarded step g' s cs := by
  induction cs generalizing s with
  | nil => exact trivial
  | cons c cs ih => exact ⟨himp s c h.1, ih h.2⟩

/-- A guard that does not look at the state is a condition on the calls. -/
theorem guarded_of_forall_mem {g : σ → κ → Prop} {s : σ} {cs : List κ}
    (h : ∀ c ∈ cs, ∀ s, g s c) : Guarded step g s cs := by
  induction cs generalizing s with
  | nil => exact trivial
  | cons c cs ih => exact ⟨h c (by simp) s, ih (fun d hd => h d (by simp [hd]))⟩

/-- **Trace rule.** A relation between trace and state that holds at the
start and is extended by every guarded call holds after every guarded run. -/
theorem Guarded.trace_inv {g : σ → κ → Prop} {s : σ} {cs : List κ}
    (h : Guarded step g s cs) {P : List (κ × ρ) → σ → Prop} (hstart : P [] s)
    (hstep : ∀ t s' c, P t s' → g s' c → P (t ++ [(c, (step s' c).1)]) (step s' c).2) :
    P (trace step s cs) (run step s cs) := by
  induction cs using List.reverseRecOn with
  | nil => exact hstart
  | append_singleton cs c ih =>
      obtain ⟨hcs, hc⟩ := guarded_concat.mp h
      rw [trace_concat, run_concat]
      exact hstep _ _ c (ih hcs) hc

/-- **State rule.** An invariant preserved by every guarded call. -/
theorem Guarded.run_inv {g : σ → κ → Prop} {s : σ} {cs : List κ}
    (h : Guarded step g s cs) {I : σ → Prop} (hstart : I s)
    (hstep : ∀ s' c, I s' → g s' c → I (step s' c).2) : I (run step s cs) :=
  h.trace_inv (P := fun _ s' => I s') hstart (fun _ s' c => hstep s' c)

/-- The trace rule for runs of any calls. -/
theorem trace_of_step {P : List (κ × ρ) → σ → Prop} {s : σ} (hstart : P [] s)
    (hstep : ∀ t s' c, P t s' → P (t ++ [(c, (step s' c).1)]) (step s' c).2) (cs : List κ) :
    P (trace step s cs) (run step s cs) :=
  (guarded_of_forall_mem (g := fun _ _ => True) (fun _ _ _ => trivial)).trace_inv hstart
    (fun t s' c h _ => hstep t s' c h)

/-- The state rule for runs of any calls. -/
theorem run_of_step {I : σ → Prop} {s : σ} (hstart : I s)
    (hstep : ∀ s' c, I s' → I (step s' c).2) (cs : List κ) : I (run step s cs) :=
  trace_of_step (P := fun _ s' => I s') hstart (fun _ s' c => hstep s' c) cs

/-- One call repeated: `P n` is what the first `n` of them establish. -/
theorem replicate_inv {s : σ} {c : κ} {P : Nat → List (κ × ρ) → σ → Prop} (hstart : P 0 [] s)
    (hstep : ∀ n t s', P n t s' → P (n + 1) (t ++ [(c, (step s' c).1)]) (step s' c).2) (n : Nat) :
    P n (trace step s (List.replicate n c)) (run step s (List.replicate n c)) := by
  induction n with
  | zero => exact hstart
  | succ n ih =>
      rw [List.replicate_succ', trace_concat, run_concat]
      exact hstep n _ _ ih

/-- **Two-run rule.** Two machines given the same calls: a relation between
their states that every call extends, with related replies, relates the two
runs and all their replies. -/
theorem replies_related {τ : Type*} {π : Type*} {step' : τ → κ → π × τ} {R : List κ → σ → τ → Prop}
    {f : ρ → π} {s : σ} {t : τ} {cs : List κ} (hstart : R [] s t)
    (hstep : ∀ pre c s' t', pre ++ [c] <+: cs → R pre s' t' →
      (step' t' c).1 = f (step s' c).1 ∧ R (pre ++ [c]) (step s' c).2 (step' t' c).2) :
    (trace step' t cs).map (·.2) = ((trace step s cs).map (·.2)).map f ∧
      R cs (run step s cs) (run step' t cs) := by
  induction cs using List.reverseRecOn with
  | nil => exact ⟨rfl, hstart⟩
  | append_singleton cs c ih =>
      have hpre : cs <+: cs ++ [c] := List.prefix_append _ _
      obtain ⟨hreplies, hstates⟩ := ih (fun pre d s' t' h => hstep pre d s' t' (h.trans hpre))
      obtain ⟨hreply, hnext⟩ := hstep cs c _ _ (List.prefix_refl _) hstates
      refine ⟨?_, ?_⟩
      · simp only [trace_concat, List.map_append, List.map_cons, List.map_nil, hreplies, hreply]
      · rwa [run_concat, run_concat]

theorem guarded_iff_concat {g : σ → κ → Prop} {s : σ} {cs : List κ} :
    Guarded step g s cs ↔ ∀ pre c, pre ++ [c] <+: cs → g (run step s pre) c := by
  induction cs using List.reverseRecOn with
  | nil =>
      refine iff_of_true trivial (fun pre c h => ?_)
      simp at h
  | append_singleton cs d ih =>
      rw [guarded_concat, ih]
      constructor
      · intro h pre c hpre
        rcases List.prefix_concat_iff.mp hpre with heq | hshort
        · obtain ⟨rfl, rfl⟩ := List.append_singleton_inj.mp heq
          exact h.2
        · exact h.1 pre c hshort
      · intro h
        exact ⟨fun pre c hpre => h pre c (hpre.trans (List.prefix_append _ _)),
          h cs d (List.prefix_refl _)⟩

/-- **Exactness rule.** If each call of the run, after a good prefix, keeps
`P` exactly when it meets `G`, then `P` holds throughout exactly when every
call meets `G`. -/
theorem throughout_iff_within {P : List (κ × ρ) → σ → Prop} {G : List (κ × ρ) → σ → κ → Prop}
    {s : σ} {cs : List κ} (hstart : P [] s)
    (hstep : ∀ pre c, pre ++ [c] <+: cs → P (trace step s pre) (run step s pre) →
      (P (trace step s (pre ++ [c])) (run step s (pre ++ [c])) ↔
        G (trace step s pre) (run step s pre) c)) :
    Throughout step P s cs ↔
      ∀ pre c, pre ++ [c] <+: cs → G (trace step s pre) (run step s pre) c := by
  constructor
  · intro h pre c hpre
    have hgood := h pre ((List.prefix_append _ _).trans hpre)
    exact (hstep pre c hpre hgood).mp (h _ hpre)
  · intro h pre
    induction pre using List.reverseRecOn with
    | nil => exact fun _ => hstart
    | append_singleton pre c ih =>
        intro hpre
        have hgood := ih ((List.prefix_append _ _).trans hpre)
        exact (hstep pre c hpre hgood).mpr (h pre c hpre)

/-- The exactness rule in a run of calls that meet `H`. -/
theorem Guarded.throughout_iff {H : σ → κ → Prop} {P : List (κ × ρ) → σ → Prop}
    {G : List (κ × ρ) → σ → κ → Prop} {s : σ} {cs : List κ} (hH : Guarded step H s cs)
    (hstart : P [] s)
    (hstep : ∀ pre c, P (trace step s pre) (run step s pre) → H (run step s pre) c →
      (P (trace step s (pre ++ [c])) (run step s (pre ++ [c])) ↔
        G (trace step s pre) (run step s pre) c)) :
    Throughout step P s cs ↔
      ∀ pre c, pre ++ [c] <+: cs → G (trace step s pre) (run step s pre) c :=
  throughout_iff_within hstart
    (fun pre c hpre hgood => hstep pre c hgood (guarded_iff_concat.mp hH pre c hpre))

/-- The exactness rule for runs of any calls. -/
theorem throughout_iff {P : List (κ × ρ) → σ → Prop} {G : List (κ × ρ) → σ → κ → Prop} {s : σ}
    {cs : List κ} (hstart : P [] s)
    (hstep : ∀ pre c, P (trace step s pre) (run step s pre) →
      (P (trace step s (pre ++ [c])) (run step s (pre ++ [c])) ↔
        G (trace step s pre) (run step s pre) c)) :
    Throughout step P s cs ↔
      ∀ pre c, pre ++ [c] <+: cs → G (trace step s pre) (run step s pre) c :=
  throughout_iff_within hstart (fun pre c _ hgood => hstep pre c hgood)

end GpuMemoryService.Lib
