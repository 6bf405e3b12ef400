/-
GpuMemoryService.RegionVerify — `verify` as a checker.

`Inv.verify_eq` says that `verify` accepts every allocator that keeps the
invariant. Here the allocator is any representation at all, reachable or
not, and the other direction is shown: what `verify` accepts is a canonical
tiling (`verify_sound`). The one thing the loop cannot see is a sum that
wraps, so the end of every region is assumed to be a 64-bit number.

One lemma inverts a round of the loop (`verifyStep_ok`), the induction over
the map carries the end of the last region and whether it was free
(`Scanned`), and the two final comparisons close the sums.
-/
import Mathlib.Data.Set.BooleanAlgebra
import Mathlib.Order.CompletePartialOrder
import Mathlib.Order.Interval.Set.Disjoint
import GpuMemoryService.RegionTheorems

namespace GpuMemoryService.RegionAllocator

open Lib

/-- What a checked arena is: the regions lie end to end over it, live ones
aligned, free ones merged, and the byte counter counts the live ones. -/
structure Canonical (ra : RegionAllocator) : Prop where
  covered : ∀ b < ra.capacity.toNat, ∃! e, e ∈ ra.regions.entries ∧ b ∈ bytesAt e.1 e.2
  inside : ∀ e ∈ ra.regions.entries, e.1.toNat + e.2.size.toNat ≤ ra.capacity.toNat
  disjoint : ∀ e ∈ ra.regions.entries, ∀ e' ∈ ra.regions.entries,
    e.2.live = true → e'.2.live = true → e ≠ e' → Disjoint (bytesAt e.1 e.2) (bytesAt e'.1 e'.2)
  live_bytes : (ra.snapshotLive.map sizeNat).sum = ra.liveBytes.toNat
  total : (ra.snapshotLive.map sizeNat).sum + (ra.snapshotFree.map sizeNat).sum
    = ra.capacity.toNat
  aligned : ∀ e ∈ ra.regions.entries, e.2.live = true →
    (∃ j < 64, e.2.alignment.toNat = 2 ^ j) ∧ e.2.alignment.toNat ∣ e.1.toNat
  merged : ra.regions.entries.IsChain (fun a b => ¬ (a.2.live = false ∧ b.2.live = false))

/-! ## One round of the loop -/

/-- What a round of the loop has checked. -/
structure Passed (st : VerifyState) (k : UInt64) (r : RegionInfo) : Prop where
  start : k = st.expected
  merged : st.havePrev = true → st.prevFree = true → r.live = false → st.prevEnd ≠ k
  aligned : r.live = true → isPow2 r.alignment = true ∧ r.alignment.toNat ∣ k.toNat

theorem verifyStep_ok {st st' : VerifyState} {k : UInt64} {r : RegionInfo}
    (h : verifyStep st (k, r) = .ok st') : Passed st k r ∧ st' = st.next k r := by
  unfold verifyStep at h
  dsimp only at h
  split at h
  · cases h
  rename_i hstart
  split at h
  · cases h
  split at h
  · cases h
  rename_i hmerged
  split at h
  · cases h
  rename_i hpow
  split at h
  · cases h
  rename_i hmod
  simp only [bne_iff_ne, ne_eq, not_not] at hstart
  refine ⟨⟨hstart, fun hprev hfree hlive heq => hmerged ?_, fun hlive => ⟨?_, ?_⟩⟩, ?_⟩
  · simp [hprev, hfree, hlive, heq]
  · simpa [hlive, isPow2] using hpow
  · have hzero : k % r.alignment = 0 := by simpa [hlive] using hmod
    have hrest := congrArg UInt64.toNat hzero
    rw [UInt64.toNat_mod] at hrest
    exact Nat.dvd_of_mod_eq_zero hrest
  · cases h
    rfl

/-- Every message of the loop has a text. -/
theorem verifyStep_error {st : VerifyState} {e : UInt64 × RegionInfo} {m : String}
    (h : verifyStep st e = .error m) : m ≠ "" := by
  unfold verifyStep at h
  dsimp only at h
  repeat' split at h
  all_goals first
    | (cases h; simp [String.append_eq_empty_iff])
    | cases h

/-! ## The loop -/

/-- What the loop has established when it gets from `st` to `st'`. -/
structure Scanned (st : VerifyState) (lo : Nat) (es : List (UInt64 × RegionInfo))
    (st' : VerifyState) : Prop where
  abuts : Abuts UInt64.toNat sizeNat lo es st'.expected.toNat
  sum : st'.liveSum = st.liveSum + UInt64.ofNat ((es.map (fun e => liveSize e.1 e.2)).sum)
  aligned : ∀ e ∈ es, e.2.live = true →
    isPow2 e.2.alignment = true ∧ e.2.alignment.toNat ∣ e.1.toNat
  merged : es.IsChain (fun a b => ¬ (a.2.live = false ∧ b.2.live = false))
  head : st.havePrev = true → st.prevFree = true → ∀ e ∈ es.head?, e.2.live = true

theorem scanned_of_ok {es : List (UInt64 × RegionInfo)} {st st' : VerifyState} {lo : Nat}
    (hst : st.At lo) (hend : ∀ e ∈ es, e.1.toNat + e.2.size.toNat < 2 ^ 64)
    (h : es.foldlM verifyStep st = .ok st') : Scanned st lo es st' := by
  induction es generalizing st lo with
  | nil =>
      cases h
      exact ⟨hst.expected.symm, by simp, by simp, List.IsChain.nil, by simp⟩
  | cons e es ih =>
      obtain ⟨k, r⟩ := e
      rw [List.foldlM_cons] at h
      cases hstep : verifyStep st (k, r) with
      | error m =>
          rw [hstep] at h
          cases h
      | ok next =>
          obtain ⟨hpassed, rfl⟩ := verifyStep_ok hstep
          rw [hstep] at h
          have hk : k.toNat = lo := by rw [hpassed.start, hst.expected]
          have hadd : (k + r.size).toNat = lo + sizeNat r := by
            rw [toNat_add_of_lt (hend (k, r) (by simp)), hk]
            rfl
          have hrest := ih ⟨hadd, fun _ => rfl⟩ (fun e he => hend e (by simp [he])) h
          refine ⟨⟨hk, hrest.abuts⟩, ?_, ?_, ?_, ?_⟩
          · rw [hrest.sum, st.next_liveSum, UInt64.add_assoc, List.map_cons, List.sum_cons,
              UInt64.ofNat_add]
          · intro e he
            rcases List.mem_cons.mp he with rfl | hin
            · exact hpassed.aligned
            · exact hrest.aligned e hin
          · cases es with
            | nil => exact List.IsChain.singleton _
            | cons e es =>
                refine List.IsChain.cons_cons ?_ hrest.merged
                rintro ⟨hfree, hfree'⟩
                -- the loop remembers that `r` is free and looks at the next region
                have hlive := hrest.head rfl (by simpa [VerifyState.next] using hfree) e rfl
                rw [hlive] at hfree'
                cases hfree'
          · intro hprev hfree e he
            cases he
            by_contra hdead
            have hgap := hpassed.merged hprev hfree (by simpa using hdead)
            exact hgap ((hst.prevEnd hprev).trans hpassed.start.symm)

theorem foldlM_verifyStep_error {es : List (UInt64 × RegionInfo)} {st : VerifyState} {m : String}
    (h : es.foldlM verifyStep st = .error m) : m ≠ "" := by
  induction es generalizing st with
  | nil => cases h
  | cons e es ih =>
      rw [List.foldlM_cons] at h
      cases hstep : verifyStep st e with
      | error m' =>
          rw [hstep] at h
          cases h
          exact verifyStep_error hstep
      | ok next =>
          rw [hstep] at h
          exact ih h

/-! ## The checker -/

/-- An empty report: the loop ran through and its sums are right. -/
theorem verify_eq_empty {ra : RegionAllocator} (h : ra.verify = "") :
    ∃ st, ra.regions.entries.foldlM verifyStep {} = .ok st ∧ st.expected = ra.capacity ∧
      st.liveSum = ra.liveBytes := by
  unfold verify at h
  cases hfold : ra.regions.entries.foldlM verifyStep {} with
  | error m =>
      rw [hfold] at h
      exact absurd h (foldlM_verifyStep_error hfold)
  | ok st =>
      rw [hfold] at h
      dsimp only at h
      split at h
      · exact absurd h (by decide)
      rename_i hcapacity
      split at h
      · exact absurd h (by decide)
      rename_i hsum
      exact ⟨st, rfl, by simpa using hcapacity, by simpa using hsum⟩

/-- Live and free regions together are all regions. -/
theorem sum_snapshots (ra : RegionAllocator) :
    (ra.snapshotLive.map sizeNat).sum + (ra.snapshotFree.map sizeNat).sum
      = (ra.regions.entries.map (fun e => sizeNat e.2)).sum := by
  unfold snapshotLive snapshotFree
  induction ra.regions.entries with
  | nil => rfl
  | cons e es ih =>
      cases hl : e.2.live with
      | true =>
          simp only [List.map_cons, List.filter_cons, hl, Bool.not_true, Bool.false_eq_true,
            if_true, if_false, List.sum_cons]
          omega
      | false =>
          simp only [List.map_cons, List.filter_cons, hl, Bool.not_false, Bool.false_eq_true,
            if_true, if_false, List.sum_cons]
          omega

/-- **`verify` is a sound checker.** For every representation whose regions
end below 2^64: if `verify` has nothing to report, the arena is canonical. -/
theorem verify_sound (ra : RegionAllocator)
    (hend : ∀ e ∈ ra.regions.entries, e.1.toNat + e.2.size.toNat ≤ 2 ^ 64 - 1)
    (h : ra.verify = "") : Canonical ra := by
  obtain ⟨st, hfold, hcapacity, hlive⟩ := verify_eq_empty h
  have hstart : VerifyState.At {} 0 := ⟨rfl, fun hprev => by cases hprev⟩
  have hscan := scanned_of_ok hstart
    (fun e he => by have := hend e he; omega) hfold
  have habuts := hscan.abuts
  rw [hcapacity] at habuts
  have htotal : (ra.snapshotLive.map sizeNat).sum + (ra.snapshotFree.map sizeNat).sum
      = ra.capacity.toNat := by
    have hsum := habuts.sum_len
    rw [Nat.zero_add] at hsum
    rw [sum_snapshots, hsum]
  exact
    { covered := fun b hb => by
        obtain ⟨e, he, hin⟩ := habuts.exists_covering (Nat.zero_le b) hb
        refine ⟨e, ⟨he, hin⟩, fun e' he' => ?_⟩
        exact habuts.eq_of_shared he'.1 he he'.2 hin
      inside := fun e he => (habuts.inside e he).2
      disjoint := fun e he e' he' _ _ hne => by
        refine Set.disjoint_left.mpr (fun b hb hb' => hne ?_)
        exact habuts.eq_of_shared he he' hb hb'
      live_bytes := by
        have hcap := ra.capacity.toNat_lt
        have hsum := congrArg UInt64.toNat hscan.sum
        have hweigh : (ra.regions.entries.map (fun e => liveSize e.1 e.2)).sum
            = (ra.snapshotLive.map sizeNat).sum := (weigh_live ra.regions).2
        rw [hlive, hweigh, UInt64.toNat_add, UInt64.toNat_ofNat'] at hsum
        simp only [UInt64.toNat_zero] at hsum
        omega
      total := htotal
      aligned := fun e he hl =>
        ⟨exists_pow_of_isPow2 (hscan.aligned e he hl).1, (hscan.aligned e he hl).2⟩
      merged := hscan.merged }

/-- No run leads here: behind the last byte there is an empty free region.
It holds no byte, and `verify` has nothing against it. -/
def emptyTail : RegionAllocator where
  capacity := 96
  regions := (OrdMap.empty.insert 0 { size := 96, alignment := 32, live := true }).insert 96
    { offset := 96, size := 0 }
  freeSlots := OrdMap.empty.insert ⟨0, 96⟩ ()
  liveBytes := 96
  liveCount := 1

theorem verify_sound_emptyTail : emptyTail.verify = "" ∧ Canonical emptyTail :=
  ⟨by decide +kernel, verify_sound emptyTail (by decide +kernel) (by decide +kernel)⟩

end GpuMemoryService.RegionAllocator
