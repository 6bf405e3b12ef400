/-
GpuMemoryService.Lib.Isolation — owners that do not see each other.

A machine is called by many owners. `view` is what one of them depends on
and `own` marks its calls. If its calls are answered, and change the view,
by the view alone, and other calls leave the view as it is, then the owner
gets the answers it would get if it were alone, however the other calls are
placed between its own.
-/
import GpuMemoryService.Lib.Run

namespace GpuMemoryService.Lib

variable {σ : Type*} {κ : Type*} {ρ : Type*} {τ : Type*}

/-- In states with `I` the owner's calls depend on its view only, and calls
of others that meet `G` leave it alone. -/
structure Isolates (step : σ → κ → ρ × σ) (I : σ → Prop) (G : σ → κ → Prop) (view : σ → τ)
    (own : κ → Bool) : Prop where
  inv : ∀ s c, I s → I (step s c).2
  keeps : ∀ s c, I s → own c = false → G s c → view (step s c).2 = view s
  alike : ∀ s s' c, I s → I s' → own c = true → view s = view s' →
    (step s c).1 = (step s' c).1 ∧ view (step s c).2 = view (step s' c).2

variable {step : σ → κ → ρ × σ} {I : σ → Prop} {G : σ → κ → Prop} {view : σ → τ}
  {own : κ → Bool}

/-- **Isolation.** A run gives the owner the answers and the view that its
own calls alone give. -/
theorem Isolates.alone (h : Isolates step I G view own) {s s' : σ} (hs : I s) (hs' : I s')
    (hview : view s = view s') {cs : List κ} (hg : Guarded step G s cs) :
    (trace step s cs).filter (fun e => own e.1) = trace step s' (cs.filter own) ∧
      view (run step s cs) = view (run step s' (cs.filter own)) := by
  induction cs generalizing s s' with
  | nil => exact ⟨rfl, hview⟩
  | cons c cs ih =>
      have hnext := h.inv s c hs
      cases hown : own c with
      | false =>
          have hrest := ih hnext hs' ((h.keeps s c hs hown hg.1).trans hview) hg.2
          simp only [trace, run, List.filter_cons, hown, Bool.false_eq_true, if_false]
          exact hrest
      | true =>
          obtain ⟨hreply, hafter⟩ := h.alike s s' c hs hs' hown hview
          have hrest := ih hnext (h.inv s' c hs') hafter hg.2
          simp only [trace, run, List.filter_cons, hown, if_true, hreply, hrest.1, true_and]
          exact hrest.2

/-- **Orders.** Two runs with the same calls of the owner, in the same
order, give it the same answers and the same view. -/
theorem Isolates.same (h : Isolates step I G view own) {s : σ} (hs : I s) {cs ds : List κ}
    (hcs : Guarded step G s cs) (hds : Guarded step G s ds)
    (hsame : cs.filter own = ds.filter own) :
    (trace step s cs).filter (fun e => own e.1) = (trace step s ds).filter (fun e => own e.1) ∧
      view (run step s cs) = view (run step s ds) := by
  obtain ⟨hl, hlv⟩ := h.alone hs hs rfl hcs
  obtain ⟨hr, hrv⟩ := h.alone hs hs rfl hds
  rw [hl, hr, hlv, hrv, hsame]
  exact ⟨rfl, rfl⟩

end GpuMemoryService.Lib
