/-
GpuMemoryService.Lib.Access — readers that index a buffer, with a record of
every element they access.

A reader of `Lib.Bytes` holds the bytes that are left and cannot reach any
other. Code that parses a buffer in place holds a position and indexes the
buffer instead. `Cursor` is that position together with the accesses made so
far; both outlive a failed read. `Follows b t r stray` says that the
indexing reader `t` of `b` reads what `r` reads from the bytes at the
position, and that it accesses an element outside exactly on the inputs
`stray`. Its rules follow the way readers are built: `pure`, `fail`,
`bind`, `many`. `Computes` is the same for a computation that ends with a
result and leaves no input behind.

Reading a block checks the room and then indexes (`block`); `slice` does the
same but first takes a reference to the element at the position, which is
outside when an empty slice is taken at the very end (`follows_slice`).
-/
import GpuMemoryService.Lib.Bytes

namespace GpuMemoryService.Lib

/-- An access to the element at `index` of a vector with `size` elements. -/
structure Access where
  index : Nat
  size : Nat
deriving DecidableEq, Repr

/-- Where a reader stands and what it has accessed. -/
structure Cursor where
  pos : Nat := 0
  accesses : List Access := []
deriving DecidableEq, Repr

/-- Code that indexes a buffer and may stop with an error. -/
abbrev Indexing (ε : Type) := EStateM ε Cursor

variable {α β ε : Type} {b : List UInt8}

/-- Some access was outside its vector, or beyond the buffer. -/
def Cursor.Strays (b : List UInt8) (c : Cursor) : Prop :=
  ∃ a ∈ c.accesses, ¬ (a.index < a.size ∧ a.index < b.length)

/-! ## Accessing elements -/

/-- Accesses one element. -/
def touch (a : Access) : Indexing ε Unit :=
  modify (fun c => { c with accesses := c.accesses ++ [a] })

theorem strays_touch (c : Cursor) (a : Access) :
    ({ c with accesses := c.accesses ++ [a] } : Cursor).Strays b ↔
      c.Strays b ∨ ¬ (a.index < a.size ∧ a.index < b.length) := by
  unfold Cursor.Strays
  simp only [List.mem_append, List.mem_singleton, or_and_right, exists_or, exists_eq_left]

/-- `b[pos++]`. No value is specified behind the end; it is 0 here. -/
def next (b : List UInt8) : Indexing Unit UInt8 := do
  let c ← get
  touch ⟨c.pos, b.length⟩
  modify (fun c => { c with pos := c.pos + 1 })
  pure (b.getD c.pos 0)

/-- `n` elements, one after the other. -/
def nextBytes (b : List UInt8) : Nat → Indexing Unit (List UInt8)
  | 0 => pure []
  | n + 1 => do
      let v ← next b
      let vs ← nextBytes b n
      pure (v :: vs)

/-- Inside the buffer the bytes are read and nothing strays. -/
theorem run_nextBytes (n : Nat) (c : Cursor) (h : c.pos + n ≤ b.length) :
    ∃ c' : Cursor, (nextBytes b n).run c = .ok ((b.drop c.pos).take n) c' ∧
      c'.pos = c.pos + n ∧ (c'.Strays b ↔ c.Strays b) := by
  induction n generalizing c with
  | zero => exact ⟨c, by simp [nextBytes], rfl, Iff.rfl⟩
  | succ n ih =>
      have hpos : c.pos < b.length := by omega
      let c₁ : Cursor := { c with accesses := c.accesses ++ [⟨c.pos, b.length⟩] }
      have hc₁ : c₁.Strays b ↔ c.Strays b := by
        rw [strays_touch]
        simp [hpos]
      obtain ⟨c', hrun, hpos', hstrays⟩ := ih { c₁ with pos := c.pos + 1 } (by simp only; omega)
      refine ⟨c', ?_, by rw [hpos']; simp only; omega, hstrays.trans hc₁⟩
      have hnext : (next b).run c = .ok b[c.pos] { c₁ with pos := c.pos + 1 } := by
        simp only [next, touch, EStateM.run_bind, EStateM.run_get, EStateM.run_modify,
          EStateM.run_pure, List.getD_eq_getElem?_getD, List.getElem?_eq_getElem hpos,
          Option.getD_some, c₁]
      rw [nextBytes, EStateM.run_bind, hnext]
      simp only [EStateM.run_bind, hrun, EStateM.run_pure]
      rw [← List.getElem_cons_drop hpos, List.take_succ_cons]

/-- A block of `w` bytes, if there is room for it. -/
def block (b : List UInt8) (w : Nat) : Indexing Unit (List UInt8) := do
  let c ← get
  if c.pos + w > b.length then throw ()
  else nextBytes b w

/-- The same through a reference to the element at the position. -/
def slice (b : List UInt8) (n : Nat) : Indexing Unit (List UInt8) := do
  let c ← get
  if c.pos + n > b.length then throw ()
  else do
    touch ⟨c.pos, b.length⟩
    nextBytes b n

/-- Repeats a reader. -/
def times (t : Indexing Unit α) : Nat → Indexing Unit (List α)
  | 0 => pure []
  | n + 1 => do
      let a ← t
      let as ← times t n
      pure (a :: as)

/-! ## Following a reader -/

/-- Where a run ended. -/
def cursorOf : EStateM.Result ε Cursor α → Cursor
  | .ok _ c => c
  | .error _ c => c

/-- The value of a run, with the bytes from its position on. -/
def readOf (b : List UInt8) : EStateM.Result ε Cursor α → Option (α × List UInt8)
  | .ok a c => some (a, b.drop c.pos)
  | .error _ _ => none

/-- `t` reads from `b` what `r` reads from the bytes at the position, and
strays exactly on the inputs `stray`. -/
structure Follows (b : List UInt8) (t : Indexing Unit α) (r : Reader α)
    (stray : List UInt8 → Prop) : Prop where
  reads : ∀ c : Cursor, c.pos ≤ b.length → r.run (b.drop c.pos) = readOf b (t.run c)
  inside : ∀ c : Cursor, c.pos ≤ b.length → (cursorOf (t.run c)).pos ≤ b.length
  strays : ∀ c : Cursor, c.pos ≤ b.length →
    ((cursorOf (t.run c)).Strays b ↔ c.Strays b ∨ stray (b.drop c.pos))

/-- An indexing reader that never strays. -/
def FollowsSafely (b : List UInt8) (t : Indexing Unit α) (r : Reader α) : Prop :=
  Follows b t r (fun _ => False)

namespace Follows

variable {t : Indexing Unit α} {r : Reader α} {stray : List UInt8 → Prop}

theorem congr (h : Follows b t r stray) {stray' : List UInt8 → Prop}
    (heq : ∀ bs, stray bs ↔ stray' bs) : Follows b t r stray' :=
  ⟨h.reads, h.inside, fun c hc => by rw [h.strays c hc, heq]⟩

theorem pure (a : α) : FollowsSafely b (pure a) (pure a) :=
  ⟨fun _ _ => rfl, fun _ hc => hc, fun c _ => by simp [cursorOf]⟩

theorem fail : FollowsSafely b (throw () : Indexing Unit α) failure :=
  ⟨fun _ _ => rfl, fun _ hc => hc, fun c _ => by
    show c.Strays b ↔ _
    simp⟩

/-- The two ways a read ends, with all that is known about each. -/
theorem outcome (h : Follows b t r stray) {c : Cursor} (hc : c.pos ≤ b.length) :
    (∃ a c', t.run c = .ok a c' ∧ r.run (b.drop c.pos) = some (a, b.drop c'.pos) ∧
      c'.pos ≤ b.length ∧ (c'.Strays b ↔ c.Strays b ∨ stray (b.drop c.pos))) ∨
    ∃ e c', t.run c = .error e c' ∧ r.run (b.drop c.pos) = none ∧
      c'.pos ≤ b.length ∧ (c'.Strays b ↔ c.Strays b ∨ stray (b.drop c.pos)) := by
  have hreads := h.reads c hc
  have hinside := h.inside c hc
  have hstrays := h.strays c hc
  cases hrun : t.run c with
  | ok a c' =>
      rw [hrun] at hreads hinside hstrays
      exact Or.inl ⟨a, c', rfl, hreads, hinside, hstrays⟩
  | error e c' =>
      rw [hrun] at hreads hinside hstrays
      exact Or.inr ⟨e, c', rfl, hreads, hinside, hstrays⟩

/-- **Sequencing.** The second reader starts where the first has stopped. -/
theorem bind (ht : Follows b t r stray) {f : α → Indexing Unit β} {g : α → Reader β}
    {stray' : α → List UInt8 → Prop} (hf : ∀ a, Follows b (f a) (g a) (stray' a)) :
    Follows b (t >>= f) (r >>= g)
      (fun bs => stray bs ∨ ∃ a rest, r.run bs = some (a, rest) ∧ stray' a rest) := by
  refine ⟨fun c hc => ?_, fun c hc => ?_, fun c hc => ?_⟩
  all_goals rcases ht.outcome hc with
    ⟨a, c', hrun, hreads, hinside, hstrays⟩ | ⟨e, c', hrun, hreads, hinside, hstrays⟩
  all_goals simp only [EStateM.run_bind, hrun]
  · rw [StateT.run_bind, hreads]
    exact (hf a).reads c' hinside
  · rw [StateT.run_bind, hreads]
    rfl
  · exact (hf a).inside c' hinside
  · exact hinside
  · simp [(hf a).strays c' hinside, hstrays, hreads, or_assoc]
  · simp [cursorOf, hstrays, hreads]

/-- A reader that never strays, in front of others. -/
theorem bind_safe (ht : FollowsSafely b t r) {f : α → Indexing Unit β} {g : α → Reader β}
    {stray' : α → List UInt8 → Prop} (hf : ∀ a, Follows b (f a) (g a) (stray' a)) :
    Follows b (t >>= f) (r >>= g)
      (fun bs => ∃ a rest, r.run bs = some (a, rest) ∧ stray' a rest) :=
  (ht.bind hf).congr (by simp)

theorem bind_safely (ht : FollowsSafely b t r) {f : α → Indexing Unit β} {g : α → Reader β}
    (hf : ∀ a, FollowsSafely b (f a) (g a)) : FollowsSafely b (t >>= f) (r >>= g) :=
  (bind_safe ht hf).congr (by simp)

/-- **Repetition.** One of the rounds strays, behind rounds that succeed. -/
theorem many (ht : Follows b t r stray) (n : Nat) :
    Follows b (times t n) (many r n)
      (fun bs => ∃ k < n, ∃ as rest, (many r k).run bs = some (as, rest) ∧ stray rest) := by
  induction n with
  | zero => exact (pure []).congr (by simp)
  | succ n ih =>
      have hround : Follows b (times t (n + 1)) (Lib.many r (n + 1)) _ :=
        ht.bind (fun a => ih.bind (fun as => pure (a :: as)))
      refine hround.congr (fun bs => ?_)
      constructor
      · rintro (hstray | ⟨a, rest, hr, ⟨k, hk, as, rest', hrest, hstray⟩ | ⟨_, _, _, hfalse⟩⟩)
        · exact ⟨0, by omega, [], bs, rfl, hstray⟩
        · refine ⟨k + 1, by omega, a :: as, rest', ?_, hstray⟩
          show (r >>= fun a => Lib.many r k >>= fun as => Pure.pure (a :: as)).run bs = _
          simp [StateT.run_bind, hr, hrest]
        · exact hfalse.elim
      · rintro ⟨k, hk, as, rest, hrest, hstray⟩
        cases k with
        | zero =>
            obtain ⟨_, rfl⟩ := pure_run_eq_some.mp hrest
            exact Or.inl hstray
        | succ k =>
            have hsplit : (r >>= fun a => Lib.many r k >>= fun as => Pure.pure (a :: as)).run bs
                = some (as, rest) := hrest
            rw [StateT.run_bind] at hsplit
            obtain ⟨⟨a, rest₁⟩, hr, htail⟩ := Option.bind_eq_some_iff.mp hsplit
            rw [StateT.run_bind] at htail
            obtain ⟨⟨as', rest₂⟩, hmany, hpure⟩ := Option.bind_eq_some_iff.mp htail
            obtain ⟨_, rfl⟩ := pure_run_eq_some.mp hpure
            exact Or.inr ⟨a, rest₁, hr, Or.inl ⟨k, by omega, as', rest₂, hmany, hstray⟩⟩

end Follows

/-! ## Readers of a fixed width -/

/-- The input goes on as in `P` behind its first `w` bytes. -/
def Behind (w : Nat) (P : List UInt8 → Prop) (bs : List UInt8) : Prop :=
  ∃ front rest, front.length = w ∧ bs = front ++ rest ∧ P rest

theorem behind_zero {P : List UInt8 → Prop} {bs : List UInt8} : Behind 0 P bs ↔ P bs := by
  constructor
  · rintro ⟨front, rest, hfront, rfl, hP⟩
    rwa [List.length_eq_zero_iff.mp hfront]
  · intro hP
    exact ⟨[], bs, rfl, rfl, hP⟩

theorem behind_add {v w : Nat} {P : List UInt8 → Prop} {bs : List UInt8} :
    Behind (v + w) P bs ↔ ∃ front rest, front.length = w ∧ bs = front ++ rest ∧ Behind v P rest := by
  constructor
  · rintro ⟨front, rest, hfront, rfl, hP⟩
    refine ⟨front.take w, front.drop w ++ rest, by simp [hfront], ?_, front.drop w, rest,
      by simp [hfront], rfl, hP⟩
    rw [← List.append_assoc, List.take_append_drop]
  · rintro ⟨front, _, hfront, rfl, front', rest, hfront', rfl, hP⟩
    exact ⟨front ++ front', rest, by simp [hfront, hfront', Nat.add_comm], by simp, hP⟩

/-- The reader takes `w` bytes, whatever they are. -/
def Takes (r : Reader α) (w : Nat) : Prop :=
  ∀ bs rest, (∃ a, r.run bs = some (a, rest)) ↔ ∃ front, front.length = w ∧ bs = front ++ rest

theorem takes_takeBytes (w : Nat) : Takes (takeBytes w) w := by
  intro bs rest
  constructor
  · rintro ⟨a, hrun⟩
    obtain ⟨_, ⟨rfl, hlen⟩, hbs⟩ := (takeBytes_recognizes w _ _ _).mp hrun
    exact ⟨_, hlen, hbs⟩
  · rintro ⟨front, hlen, rfl⟩
    exact ⟨front, (takeBytes_recognizes w).run_append ⟨rfl, hlen⟩ rest⟩

theorem Takes.map {r : Reader α} {w : Nat} (h : Takes r w) (g : α → β) :
    Takes (r >>= fun a => pure (g a)) w := by
  intro bs rest
  rw [← h bs rest]
  constructor
  · rintro ⟨_, hrun⟩
    rw [StateT.run_bind] at hrun
    obtain ⟨⟨a, rest'⟩, hr, hpure⟩ := Option.bind_eq_some_iff.mp hrun
    obtain ⟨_, rfl⟩ := pure_run_eq_some.mp hpure
    exact ⟨a, hr⟩
  · rintro ⟨a, hr⟩
    refine ⟨g a, ?_⟩
    rw [StateT.run_bind, hr]
    rfl

/-- A field of fixed width in front of others: what follows starts behind it. -/
theorem Follows.bind_takes {t : Indexing Unit α} {r : Reader α} {v w : Nat}
    (ht : FollowsSafely b t r) (hr : Takes r w) {f : α → Indexing Unit β} {g : α → Reader β}
    {stray : List UInt8 → Prop} (hf : ∀ a, Follows b (f a) (g a) (Behind v stray)) :
    Follows b (t >>= f) (r >>= g) (Behind (v + w) stray) := by
  refine (bind_safe ht hf).congr (fun bs => ?_)
  rw [behind_add]
  constructor
  · rintro ⟨a, rest, hrun, hstray⟩
    obtain ⟨front, hlen, hbs⟩ := (hr bs rest).mp ⟨a, hrun⟩
    exact ⟨front, rest, hlen, hbs, hstray⟩
  · rintro ⟨front, rest, hlen, hbs, hstray⟩
    obtain ⟨a, hrun⟩ := (hr bs rest).mpr ⟨front, hlen, hbs⟩
    exact ⟨a, rest, hrun, hstray⟩

theorem Follows.behind {t : Indexing Unit α} {r : Reader α} {stray : List UInt8 → Prop}
    (h : Follows b t r stray) : Follows b t r (Behind 0 stray) :=
  h.congr (fun _ => behind_zero.symm)

/-! ## Blocks and slices -/

theorem run_takeBytes {bs : List UInt8} {n : Nat} (h : n ≤ bs.length) :
    (takeBytes n).run bs = some (bs.take n, bs.drop n) :=
  if_neg (by omega)

theorem run_takeBytes_short {bs : List UInt8} {n : Nat} (h : bs.length < n) :
    (takeBytes n).run bs = none :=
  if_pos h

section Room

variable {n : Nat} {t : Indexing Unit (List UInt8)} {stray : List UInt8 → Prop}

/-- A reader that stops without room for `n` bytes and takes them otherwise. -/
theorem follows_takeBytes (hshort : ∀ c : Cursor, b.length < c.pos + n → t.run c = .error () c)
    (hroom : ∀ c : Cursor, c.pos + n ≤ b.length →
      ∃ c' : Cursor, t.run c = .ok ((b.drop c.pos).take n) c' ∧ c'.pos = c.pos + n ∧
        (c'.Strays b ↔ c.Strays b ∨ stray (b.drop c.pos)))
    (hstray : ∀ bs, stray bs → n ≤ bs.length) : Follows b t (takeBytes n) stray := by
  have hlen : ∀ c : Cursor, (b.drop c.pos).length = b.length - c.pos := fun c => List.length_drop
  refine ⟨fun c hc => ?_, fun c hc => ?_, fun c hc => ?_⟩
  all_goals rcases Nat.lt_or_ge b.length (c.pos + n) with hlt | hge
  · rw [hshort c hlt, run_takeBytes_short (by rw [hlen]; omega)]
    rfl
  · obtain ⟨c', hrun, hpos, _⟩ := hroom c hge
    rw [hrun, run_takeBytes (by rw [hlen]; omega), readOf, hpos, List.drop_drop]
  · rw [hshort c hlt]
    exact hc
  · obtain ⟨c', hrun, hpos, _⟩ := hroom c hge
    rw [hrun, cursorOf, hpos]
    exact hge
  · have hno : ¬ stray (b.drop c.pos) := fun h => by
      have hle := hstray _ h
      rw [hlen] at hle
      omega
    rw [hshort c hlt, cursorOf, or_iff_left hno]
  · obtain ⟨c', hrun, _, hstrays⟩ := hroom c hge
    rw [hrun]
    exact hstrays

end Room

/-- Checking the room first keeps every access inside. -/
theorem follows_block (w : Nat) : FollowsSafely b (block b w) (takeBytes w) := by
  refine follows_takeBytes (fun c hlt => ?_) (fun c hroom => ?_) (fun _ hfalse => hfalse.elim)
  · simp only [block, EStateM.run_bind, EStateM.run_get]
    rw [if_pos hlt]
    rfl
  · obtain ⟨c', hrun, hpos, hstrays⟩ := run_nextBytes w c hroom
    refine ⟨c', ?_, hpos, by rw [hstrays, or_false]⟩
    simp only [block, EStateM.run_bind, EStateM.run_get]
    rw [if_neg (by omega), hrun]

/-- The reference is outside exactly if nothing is taken at the very end. -/
theorem follows_slice (n : Nat) :
    Follows b (slice b n) (takeBytes n) (fun bs => n = 0 ∧ bs = []) := by
  refine follows_takeBytes (fun c hlt => ?_) (fun c hroom => ?_) (fun _ h => by simp [h.1])
  · simp only [slice, EStateM.run_bind, EStateM.run_get]
    rw [if_pos hlt]
    rfl
  · let c₁ : Cursor := { c with accesses := c.accesses ++ [⟨c.pos, b.length⟩] }
    have hc₁ : c₁.Strays b ↔ c.Strays b ∨ (n = 0 ∧ b.drop c.pos = []) := by
      rw [strays_touch, List.drop_eq_nil_iff]
      simp only [and_self]
      have hend : ¬ c.pos < b.length ↔ n = 0 ∧ b.length ≤ c.pos := by omega
      rw [hend]
    obtain ⟨c', hrun, hpos, hstrays⟩ := run_nextBytes n c₁ hroom
    refine ⟨c', ?_, hpos, hstrays.trans hc₁⟩
    simp only [slice, touch, EStateM.run_bind, EStateM.run_get]
    rw [if_neg (by omega)]
    simp only [EStateM.run_bind, EStateM.run_modify]
    exact hrun

/-! ## Computing a result -/

/-- The result of a run. -/
def resultOf : EStateM.Result ε Cursor α → Except ε α
  | .ok a _ => .ok a
  | .error e _ => .error e

/-- `t` has the result that `p` computes from the bytes at the position, and
strays exactly on the inputs `stray`. -/
structure Computes (b : List UInt8) (t : Indexing ε α) (p : List UInt8 → Except ε α)
    (stray : List UInt8 → Prop) : Prop where
  result : ∀ c : Cursor, c.pos ≤ b.length → p (b.drop c.pos) = resultOf (t.run c)
  strays : ∀ c : Cursor, c.pos ≤ b.length →
    ((cursorOf (t.run c)).Strays b ↔ c.Strays b ∨ stray (b.drop c.pos))

/-- A computation on a value, which accesses nothing. -/
def check : Except ε α → Indexing ε α
  | .ok a => pure a
  | .error e => throw e

/-- The error of a computation in the place of the failure of a reader. -/
def orElseThrow (e : ε) (t : Indexing Unit α) : Indexing ε α := t.adaptExcept (fun _ => e)

namespace Computes

variable {t : Indexing ε α} {p : List UInt8 → Except ε α} {stray : List UInt8 → Prop}

theorem congr (h : Computes b t p stray) {stray' : List UInt8 → Prop}
    (heq : ∀ bs, stray bs ↔ stray' bs) : Computes b t p stray' :=
  ⟨h.result, fun c hc => by rw [h.strays c hc, heq]⟩

/-- The bytes that are left, and what is known by then. -/
theorem finish (f : List UInt8 → α) :
    Computes b (do let c ← get; pure (f (b.drop c.pos)) : Indexing ε α) (fun bs => .ok (f bs))
      (fun _ => False) :=
  ⟨fun _ _ => rfl, fun c _ => by
    show c.Strays b ↔ _
    simp⟩

/-- A reader, then the rest of the computation. -/
theorem read {r : Reader α} {u : Indexing Unit α} (hu : Follows b u r stray) (e : ε)
    {f : α → Indexing ε β} {k : α × List UInt8 → Except ε β} {stray' : α → List UInt8 → Prop}
    (hf : ∀ a, Computes b (f a) (fun rest => k (a, rest)) (stray' a)) :
    Computes b (orElseThrow e u >>= f)
      (fun bs => (r.run bs).elim (.error e) k)
      (fun bs => stray bs ∨ ∃ a rest, r.run bs = some (a, rest) ∧ stray' a rest) := by
  refine ⟨fun c hc => ?_, fun c hc => ?_⟩
  all_goals rcases hu.outcome hc with
    ⟨a, c', hrun, hreads, hinside, hstrays⟩ | ⟨_, c', hrun, hreads, hinside, hstrays⟩
  all_goals simp only [EStateM.run_bind, orElseThrow, EStateM.run_adaptExcept, hrun]
  · rw [hreads]
    exact (hf a).result c' hinside
  · rw [hreads]
    rfl
  · simp [(hf a).strays c' hinside, hstrays, hreads, or_assoc]
  · simp [cursorOf, hstrays, hreads]

/-- A check of a value, then the rest of the computation. -/
theorem check_bind {q : Except ε α} {f : α → Indexing ε β} {k : α → List UInt8 → Except ε β}
    {stray' : α → List UInt8 → Prop} (hf : ∀ a, q = .ok a → Computes b (f a) (k a) (stray' a)) :
    Computes b (check q >>= f) (fun bs => q >>= fun a => k a bs)
      (fun bs => ∃ a, q = .ok a ∧ stray' a bs) := by
  cases q with
  | ok a => exact (hf a rfl).congr (by simp)
  | error e =>
      refine ⟨fun _ _ => rfl, fun c _ => ?_⟩
      show c.Strays b ↔ _
      simp

end Computes

/-! ## Computing without reading on -/

/-- From everywhere `t` has the result `q`, and it never strays. -/
structure Settles (b : List UInt8) (t : Indexing ε α) (q : Except ε α) : Prop where
  result : ∀ c : Cursor, resultOf (t.run c) = q
  strays : ∀ c : Cursor, (cursorOf (t.run c)).Strays b ↔ c.Strays b

theorem settles_pure (a : α) : Settles b (pure a : Indexing ε α) (.ok a) :=
  ⟨fun _ => rfl, fun _ => Iff.rfl⟩

theorem settles_check (q : Except ε α) : Settles b (check q) q := by
  cases q with
  | ok a => exact settles_pure a
  | error e => exact ⟨fun _ => rfl, fun _ => Iff.rfl⟩

/-- An access inside its vector and the buffer. -/
theorem settles_touch {a : Access} (ha : a.index < a.size ∧ a.index < b.length) :
    Settles b (touch a : Indexing ε Unit) (.ok ()) := by
  refine ⟨fun _ => rfl, fun c => ?_⟩
  show ({ c with accesses := c.accesses ++ [a] } : Cursor).Strays b ↔ _
  rw [strays_touch, or_iff_left (not_not_intro ha)]

theorem Settles.bind {t : Indexing ε α} {q : Except ε α} (ht : Settles b t q)
    {f : α → Indexing ε β} {k : α → Except ε β} (hf : ∀ a, q = .ok a → Settles b (f a) (k a)) :
    Settles b (t >>= f) (q >>= k) := by
  refine ⟨fun c => ?_, fun c => ?_⟩
  all_goals
    have hresult := ht.result c
    have hstrays := ht.strays c
    rw [EStateM.run_bind]
    revert hresult hstrays
    cases t.run c with
    | ok a c' => ?_
    | error e c' => ?_
    all_goals rintro rfl hstrays
  · exact (hf a rfl).result c'
  · rfl
  · exact ((hf a rfl).strays c').trans hstrays
  · exact hstrays

theorem Settles.bind_ok {t : Indexing ε α} {a : α} (ht : Settles b t (.ok a))
    {f : α → Indexing ε β} {q : Except ε β} (hf : Settles b (f a) q) : Settles b (t >>= f) q := by
  refine ht.bind (k := fun _ => q) (fun a' ha' => ?_)
  obtain rfl : a = a' := by simpa using ha'
  exact hf

/-- Accesses inside, one after the other. -/
theorem settles_touches {f : α → Access} {as : List α}
    (has : ∀ a ∈ as, (f a).index < (f a).size ∧ (f a).index < b.length) :
    Settles b (as.forM (fun a => touch (f a)) : Indexing ε Unit) (.ok ()) := by
  induction as with
  | nil => exact settles_pure ()
  | cons a as ih =>
      rw [List.forM_eq_forM, List.forM_cons]
      exact (settles_touch (has a (by simp))).bind_ok (ih (fun a' ha' => has a' (by simp [ha'])))

/-- What is computed from the result of a computation, when nothing more is
read. -/
theorem Computes.bind_settles {t : Indexing ε α} {p : List UInt8 → Except ε α}
    {stray : List UInt8 → Prop} (ht : Computes b t p stray) {f : α → Indexing ε β}
    {k : α → Except ε β}
    (hf : ∀ bs a, bs.length ≤ b.length → p bs = .ok a → Settles b (f a) (k a)) :
    Computes b (t >>= f) (fun bs => p bs >>= k) stray := by
  refine ⟨fun c hc => ?_, fun c hc => ?_⟩
  all_goals
    have hresult := ht.result c hc
    have hstrays := ht.strays c hc
    have hlen : (b.drop c.pos).length ≤ b.length := by simp
    rw [EStateM.run_bind]
    revert hresult hstrays
    cases t.run c with
    | ok a c' => ?_
    | error e c' => ?_
    all_goals intro hresult hstrays
    all_goals simp only [resultOf, cursorOf] at hresult hstrays
  · rw [hresult]
    exact ((hf _ a hlen hresult).result c').symm
  · rw [hresult]
    rfl
  · exact ((hf _ a hlen hresult).strays c').trans hstrays
  · exact hstrays

end GpuMemoryService.Lib
