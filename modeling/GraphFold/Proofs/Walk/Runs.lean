/-
GraphFold.Proofs.Walk.Runs — runs on a budget.

A budget only cuts a run off: a run that ends within it ends in the same way
within every larger one (`run_of_le`). `g.run n c = .unfinished d` says that
`n` steps lead from `c` to `d`, and is used in that sense throughout.

  §1 Budgets      — one run after another, larger budgets.
  §2 Ends         — the last step of a run that ended.
  §3 Invariants   — what every step keeps holds at every point of a run.
  §4 First points — where a property is met first, and settings that part there.
-/
import GraphFold.Proofs.Walk.Steps

namespace GraphFold

variable {N K S A V E W L : Type} [Ord K]

/-! ## §1 Budgets -/

namespace Outcome

/-- The point at which a run stopped. -/
def config : Outcome N K S A V E W L → Config N K S A V E W L
  | finished c | failed _ c | unfinished c => c

/-- Goes on with another run where the budget ran out. -/
def goOn (o : Outcome N K S A V E W L) (next : Config N K S A V E W L → Outcome N K S A V E W L) :
    Outcome N K S A V E W L :=
  match o with
  | unfinished c => next c
  | o => o

/-- Whether a run came to an end within its budget. -/
def Ended (o : Outcome N K S A V E W L) : Prop := ∀ c, o ≠ unfinished c

theorem ended_finished (c : Config N K S A V E W L) : (finished c).Ended := by
  intro d h; cases h

theorem ended_failed (f : Failure N V E) (c : Config N K S A V E W L) : (failed f c).Ended := by
  intro d h; cases h

end Outcome

/-- The point a step leads to, or ends at. -/
def Progress.config : Progress N K S A V E W L → Config N K S A V E W L
  | running c | finished c | failed _ c => c

namespace Setting

variable (g : Setting N K S A V E W L)

theorem run_zero (c : Config N K S A V E W L) : g.run 0 c = .unfinished c := rfl

/-- A step that goes on costs one unit of the budget. -/
theorem run_succ_of_running {c d : Config N K S A V E W L} (h : g.step c = .running d) (n : Nat) :
    g.run (n + 1) c = g.run n d := by
  rw [run, h]

theorem run_succ_of_failed {c d : Config N K S A V E W L} {f : Failure N V E}
    (h : g.step c = .failed f d) (n : Nat) : g.run (n + 1) c = .failed f d := by
  rw [run, h]

theorem run_succ_of_finished {c d : Config N K S A V E W L} (h : g.step c = .finished d)
    (n : Nat) : g.run (n + 1) c = .finished d := by
  rw [run, h]

/-- A run on the sum of two budgets is a run on the second after a run on the first. -/
theorem run_add (n m : Nat) (c : Config N K S A V E W L) :
    g.run (n + m) c = (g.run n c).goOn (g.run m) := by
  induction n generalizing c with
  | zero => rw [Nat.zero_add, run_zero]; rfl
  | succ n ih =>
    rw [Nat.succ_add]
    cases h : g.step c with
    | running d => rw [g.run_succ_of_running h, g.run_succ_of_running h, ih]
    | finished d => rw [g.run_succ_of_finished h, g.run_succ_of_finished h]; rfl
    | failed f d => rw [g.run_succ_of_failed h, g.run_succ_of_failed h]; rfl

/-- The same, where the first budget runs out at a known point. -/
theorem run_add_of_unfinished {n : Nat} {c d : Config N K S A V E W L}
    (h : g.run n c = .unfinished d) (m : Nat) : g.run (n + m) c = g.run m d := by
  rw [run_add, h]; rfl

theorem run_succ_of_unfinished {n : Nat} {c d e : Config N K S A V E W L}
    (h : g.run n c = .unfinished d) (hstep : g.step d = .running e) :
    g.run (n + 1) c = .unfinished e := by
  rw [g.run_add_of_unfinished h, g.run_succ_of_running hstep, run_zero]

/-- A larger budget does not change how a run ends. -/
theorem run_of_le {n m : Nat} {c : Config N K S A V E W L} (hnm : n ≤ m)
    (h : (g.run n c).Ended) : g.run m c = g.run n c := by
  obtain ⟨k, rfl⟩ := Nat.exists_eq_add_of_le hnm
  rw [run_add]
  cases hn : g.run n c with
  | unfinished d => exact absurd hn (h d)
  | finished d => rfl
  | failed f d => rfl

/-- Two runs from one point that both end, end in the same way. -/
theorem run_unique {n m : Nat} {c : Config N K S A V E W L} (hn : (g.run n c).Ended)
    (hm : (g.run m c).Ended) : g.run n c = g.run m c := by
  rcases Nat.le_total n m with h | h
  · exact (g.run_of_le h hn).symm
  · exact g.run_of_le h hm

theorem finished_unique {n m : Nat} {c d e : Config N K S A V E W L}
    (hn : g.run n c = .finished d) (hm : g.run m c = .finished e) : d = e := by
  have h := g.run_unique (n := n) (m := m) (c := c)
    (by rw [hn]; exact Outcome.ended_finished d) (by rw [hm]; exact Outcome.ended_finished e)
  rw [hn, hm] at h
  cases h
  rfl

/-- Two settings that take the same steps come to the same. -/
theorem run_congr {g h : Setting N K S A V E W L} {n : Nat} {c : Config N K S A V E W L}
    (hstep : ∀ k d, k < n → g.run k c = .unfinished d → h.step d = g.step d) :
    h.run n c = g.run n c := by
  induction n generalizing c with
  | zero => rfl
  | succ n ih =>
    have hfirst := hstep 0 c (Nat.succ_pos n) rfl
    cases hs : g.step c with
    | running d =>
      rw [g.run_succ_of_running hs, h.run_succ_of_running (hfirst.trans hs)]
      refine ih fun k e hk he => hstep (k + 1) e (Nat.succ_lt_succ hk) ?_
      rw [g.run_succ_of_running hs, he]
    | finished d => rw [g.run_succ_of_finished hs, h.run_succ_of_finished (hfirst.trans hs)]
    | failed f d => rw [g.run_succ_of_failed hs, h.run_succ_of_failed (hfirst.trans hs)]

/-! ## §2 Ends -/

/-- A run that finished stopped at a point where nothing is pending and no frame is left. -/
theorem exists_of_run_finished {n : Nat} {c d : Config N K S A V E W L}
    (h : g.run n c = .finished d) :
    ∃ m, g.run m c = .unfinished d ∧ d.pending = none ∧ d.frames = [] := by
  induction n generalizing c with
  | zero => rw [run_zero] at h; cases h
  | succ n ih =>
    cases hs : g.step c with
    | running e =>
      rw [g.run_succ_of_running hs] at h
      obtain ⟨m, hm, hd⟩ := ih h
      exact ⟨m + 1, by rw [g.run_succ_of_running hs, hm], hd⟩
    | finished e =>
      rw [g.run_succ_of_finished hs] at h
      cases h
      have hmove := g.move c
      rw [hs] at hmove
      cases hmove with
      | handle node p hpending harrival => cases harrival
      | finish hpending hframes => exact ⟨0, rfl, hpending, hframes⟩
    | failed f e => rw [g.run_succ_of_failed hs] at h; cases h

/-- A run that failed did so in its last step. -/
theorem exists_of_run_failed {n : Nat} {c d : Config N K S A V E W L} {f : Failure N V E}
    (h : g.run n c = .failed f d) :
    ∃ m e, g.run m c = .unfinished e ∧ g.step e = .failed f d := by
  induction n generalizing c with
  | zero => rw [run_zero] at h; cases h
  | succ n ih =>
    cases hs : g.step c with
    | running e =>
      rw [g.run_succ_of_running hs] at h
      obtain ⟨m, e', hm, he⟩ := ih h
      exact ⟨m + 1, e', by rw [g.run_succ_of_running hs, hm], he⟩
    | finished e => rw [g.run_succ_of_finished hs] at h; cases h
    | failed f' e =>
      rw [g.run_succ_of_failed hs] at h
      cases h
      exact ⟨0, c, rfl, hs⟩

/-! ## §3 Invariants -/

/-- What holds at the start and is kept by every step holds at every point a run gets to. -/
theorem invariant_of_run {P : Config N K S A V E W L → Prop}
    (hstep : ∀ c d, P c → g.step c = .running d → P d) {n : Nat} {c d : Config N K S A V E W L}
    (hc : P c) (h : g.run n c = .unfinished d) : P d := by
  induction n generalizing c with
  | zero => rw [run_zero] at h; cases h; exact hc
  | succ n ih =>
    cases hs : g.step c with
    | running e => exact ih (hstep c e hc hs) (by rw [g.run_succ_of_running hs] at h; exact h)
    | finished e => rw [g.run_succ_of_finished hs] at h; cases h
    | failed f e => rw [g.run_succ_of_failed hs] at h; cases h

/-- The same for the point at which a run stopped, whichever way: `Q` is what is left of the
invariant in a step that fails. -/
theorem invariant_of_outcome {P Q : Config N K S A V E W L → Prop} (hPQ : ∀ c, P c → Q c)
    (hstep : ∀ c d, P c → g.step c = .running d → P d)
    (hfail : ∀ c f d, P c → g.step c = .failed f d → Q d) {n : Nat} {c : Config N K S A V E W L}
    (hc : P c) : Q (g.run n c).config := by
  cases h : g.run n c with
  | unfinished d => exact hPQ d (g.invariant_of_run hstep hc h)
  | finished d =>
    obtain ⟨m, hm, _⟩ := g.exists_of_run_finished h
    exact hPQ d (g.invariant_of_run hstep hc hm)
  | failed f d =>
    obtain ⟨m, e, hm, he⟩ := g.exists_of_run_failed h
    exact hfail e f d (g.invariant_of_run hstep hc hm) he

/-- What every step from the points of a run keeps, also one that ends it, holds wherever the run
stops. -/
theorem holds_of_outcome {P Q : Config N K S A V E W L → Prop}
    (hP : ∀ c d, P c → g.step c = .running d → P d)
    (hQ : ∀ c, P c → Q c → Q (g.step c).config) {n : Nat} {c : Config N K S A V E W L}
    (hc : P c) (h : Q c) : Q (g.run n c).config := by
  induction n generalizing c with
  | zero => exact h
  | succ n ih =>
    have hnext := hQ c hc h
    cases hs : g.step c with
    | running d =>
      rw [hs] at hnext
      rw [g.run_succ_of_running hs]
      exact ih (hP c d hc hs) hnext
    | finished d =>
      rw [hs] at hnext
      rw [g.run_succ_of_finished hs]
      exact hnext
    | failed f d =>
      rw [hs] at hnext
      rw [g.run_succ_of_failed hs]
      exact hnext

/-! ## §4 First points -/

variable {g}

/-- The points before this one do not have the property. -/
def NotBefore (g : Setting N K S A V E W L) (P : Config N K S A V E W L → Prop)
    (start : Config N K S A V E W L) (n : Nat) : Prop :=
  ∀ k d, k < n → g.run k start = .unfinished d → ¬ P d

/-- This is the first point of the run that has the property. -/
structure FirstAt (g : Setting N K S A V E W L) (P : Config N K S A V E W L → Prop)
    (start : Config N K S A V E W L) (n : Nat) (first : Config N K S A V E W L) : Prop where
  run_eq : g.run n start = .unfinished first
  holds : P first
  notBefore : g.NotBefore P start n

/-- Within a budget a property is met nowhere, or somewhere first. -/
theorem notBefore_or_firstAt (P : Config N K S A V E W L → Prop) (start : Config N K S A V E W L)
    (n : Nat) : g.NotBefore P start n ∨ ∃ m first, m < n ∧ g.FirstAt P start m first := by
  induction n with
  | zero => exact .inl fun k d hk => absurd hk (Nat.not_lt_zero k)
  | succ n ih =>
    rcases ih with hnever | ⟨m, first, hm, hfirst⟩
    · by_cases hlast : ∃ d, g.run n start = .unfinished d ∧ P d
      · obtain ⟨d, hd, hholds⟩ := hlast
        exact .inr ⟨n, d, Nat.lt_succ_self n, hd, hholds, hnever⟩
      · refine .inl fun k d hk hd hholds => ?_
        rcases Nat.lt_succ_iff_lt_or_eq.1 hk with hlt | rfl
        · exact hnever k d hlt hd hholds
        · exact hlast ⟨d, hd, hholds⟩
    · exact .inr ⟨m, first, Nat.lt_succ_of_lt hm, hfirst⟩

/-- Settings that take the same steps where a property is not met come to the same before it is. -/
theorem run_eq_of_notBefore {h : Setting N K S A V E W L} {P : Config N K S A V E W L → Prop}
    {start : Config N K S A V E W L} {n m : Nat}
    (hstep : ∀ k d, g.run k start = .unfinished d → ¬ P d → h.step d = g.step d)
    (hnever : g.NotBefore P start n) (hle : m ≤ n) : h.run m start = g.run m start :=
  run_congr fun k d hk hd => hstep k d hd (hnever k d (Nat.lt_of_lt_of_le hk hle) hd)

/-- Where one of them fails at that point, its run ends there on every larger budget. -/
theorem FirstAt.run_eq_failed {h : Setting N K S A V E W L} {P : Config N K S A V E W L → Prop}
    {start first last : Config N K S A V E W L} {n m : Nat} {f : Failure N V E}
    (hfirst : g.FirstAt P start n first)
    (hstep : ∀ k d, g.run k start = .unfinished d → ¬ P d → h.step d = g.step d)
    (hfail : h.step first = .failed f last) (hlt : n < m) : h.run m start = .failed f last := by
  have hthere : h.run n start = .unfinished first :=
    (run_eq_of_notBefore hstep hfirst.notBefore (Nat.le_refl n)).trans hfirst.run_eq
  obtain ⟨k, rfl⟩ := Nat.exists_eq_add_of_lt hlt
  rw [Nat.add_assoc, h.run_add_of_unfinished hthere, h.run_succ_of_failed hfail]

end Setting

end GraphFold
