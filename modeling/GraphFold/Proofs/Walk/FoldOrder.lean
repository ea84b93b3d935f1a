/-
GraphFold.Proofs.Walk.FoldOrder — a walk that folds with a step is a left fold
over an order of nodes that the step has no part in.

Steps see the value and nothing else does, so walks with two steps are in step
with each other, and a function that takes one step to the other takes the one
value to the other (`matches_folding`). One of these steps lists the nodes it is
given. Every fold is the image of that list, and so is its walk.

  §1 Folds — walks with one step and with another.
  §2 Lists — the step that lists the nodes.
  §3 Walks — `Setting.folds_one_order`.
-/
import GraphFold.Proofs.Walk.Agreement

namespace GraphFold

variable {N K S A B C V E W L : Type} [Ord K]

/-! ## §1 Folds -/

/-- What a walk returns or fails with; nothing if its budget ran out. -/
def Outcome.result? : Outcome N K S A V E W L →
    Option (Except (Failure N V E) (A × State N K S × Nat))
  | .finished c => some (.ok (c.value, c.state, c.evaluations))
  | .failed f _ => some (.error f)
  | .unfinished _ => none

/-- A walk that returns something has come to its end. -/
theorem Outcome.exists_finished {o : Outcome N K S A V E W L} {value : A} {s : State N K S}
    {count : Nat} (h : o.result? = some (.ok (value, s, count))) :
    ∃ c, o = .finished c ∧ c.evaluations = count := by
  cases o with
  | finished c =>
    cases h
    exact ⟨c, rfl, rfl⟩
  | failed | unfinished => cases h

/-- The run ended after calls of these nodes: with this failure; or with this state, the left fold
of the nodes with the step, and their number. -/
def Outcome.FoldsOver (o : Outcome N K S A V E W L) (step : N → A → A) (init : A)
    (nodes : List N) (ending : Except (Failure N V E) (State N K S)) : Prop :=
  o.config.calls.map Call.node = nodes ∧
    o.result? = some (ending.map fun s =>
      (nodes.foldl (fun value node => step node value) init, s, nodes.length))

theorem Outcome.Matches.result?_eq {f : B → C} {o : Outcome N K S B V E W L}
    {p : Outcome N K S C V E W L} (h : Outcome.Matches Eq (fun b c => f b = c) o p) :
    p.result? = o.result?.map (Except.map (Prod.map f id)) := by
  cases h with
  | finished hlast =>
    cases hlast with
    | mk pending frames evaluations memory heard hstate hvalue =>
      cases State.matches_eq_iff.1 hstate
      cases hvalue
      rfl
  | failed | unfinished => rfl

theorem Config.Matches.map_node_calls {same : Std.TreeSet K → Std.TreeSet K → Prop}
    {R : A → B → Prop} {c : Config N K S A V E W L} {d : Config N K S B V E W L}
    (h : Config.Matches same R c d) : d.calls.map Call.node = c.calls.map Call.node := by
  have hnodes : List.Forall₂ Eq (c.calls.map Call.node) (d.calls.map Call.node) :=
    List.rel_map (fun _ _ hcall => hcall.node_eq) h.calls
  rw [List.forall₂_eq_eq_eq] at hnodes
  exact hnodes.symm

namespace Evaluator

variable {cut : Option (N → State N K S → Action W E Bool)}

/-- Evaluators that fold with steps agree, if the steps keep values related. -/
theorem agrees_ofFold {R : A → B → Prop} {step : N → A → A} {step' : N → B → B}
    (hstep : ∀ node a b, R a b → R (step node a) (step' node b)) :
    Evaluator.Agrees Eq R
      (ofFold (fun node a => pure (step node a)) cut : Evaluator N K S A V E W)
      (ofFold (fun node b => pure (step' node b)) cut) := by
  intro node s t a b memory hstate hvalue
  cases State.matches_eq_iff.1 hstate
  have hfolded := hstep node a b hvalue
  have hgiven : Alike (E := V) (State.Agrees (K := K) Eq) (.ok s) (.ok s) := .ok ⟨rfl, rfl⟩
  unfold ofFold
  simp only [pure_bind]
  cases cut with
  | none => exact ⟨.ok (.proceed hfolded hgiven), rfl⟩
  | some cut =>
    simp only [Action.perform_bind]
    rcases (cut node s).perform memory with ⟨e | _ | _, left⟩
    · exact ⟨.error e, rfl⟩
    · exact ⟨.ok (.proceed hfolded hgiven), rfl⟩
    · exact ⟨.ok (.prune hfolded hgiven), rfl⟩

/-- The value in an answer is that of the step. -/
theorem value?_of_ofFold {step : N → A → A} {node : N} {s : State N K S} {value : A}
    {memory left : W} {answer : Answer N K S A V}
    (h : (ofFold (fun node a => pure (step node a)) cut node s value :
      Action W E (Answer N K S A V)).perform memory = (.ok answer, left)) :
    answer.value? = some (step node value) := by
  unfold ofFold at h
  simp only [pure_bind] at h
  cases cut with
  | none =>
    cases h
    rfl
  | some cut =>
    simp only [Action.perform_bind] at h
    rcases hcut : (cut node s).perform memory with ⟨e | _ | _, left'⟩
    all_goals
      rw [hcut] at h
      cases h
    · rfl
    · rfl

end Evaluator

namespace Setting

variable (g : Setting N K S A V E W L) (cut : Option (N → State N K S → Action W E Bool))

/-- Folds with this step in place of the evaluator, leaving out the children where `cut` holds. -/
def folding (step : N → B → B) : Setting N K S B V E W L :=
  g.withEvaluator (.ofFold (fun node value => pure (step node value)) cut)

variable (budget : Nat) (root : N) (context : S) (memory : W) (heard : L)

/-- If a function takes one step to another, the walks match under it. -/
theorem matches_folding (step : N → B → B) (step' : N → C → C) (f : B → C)
    (hf : ∀ node b, f (step node b) = step' node (f b)) (init : B) :
    Outcome.Matches Eq (fun b c => f b = c)
      ((g.folding cut step).reduce budget root context init memory heard)
      ((g.folding cut step').reduce budget root context (f init) memory heard) := by
  have hsettings : Setting.InStep Eq (fun b c => f b = c) (g.folding cut step)
      (g.folding cut step') := by
    refine ⟨rfl, fun node s t hstate => ?_, Evaluator.agrees_ofFold ?_, rfl, rfl⟩
    · cases State.matches_eq_iff.1 hstate
      rfl
    · rintro node b _ rfl
      exact hf node b
  exact hsettings.reduce .eq budget root context rfl memory heard

/-! ## §2 Lists -/

/-- Puts the node at the end. -/
def listed (node : N) (nodes : List N) : List N := nodes ++ [node]

variable {g cut budget root context memory heard}

/-- The list at any point has the nodes called so far. -/
theorem value_of_listing {c : Config N K S (List N) V E W L}
    (h : (g.folding cut listed).run budget (.start root context [] memory heard) =
      .unfinished c) : c.value = c.calls.map Call.node := by
  have hcalls := (g.folding cut listed).invariant_of_run
    (P := fun c => (g.folding cut listed).Answered c.calls ∧ c.value = c.calls.map Call.node)
    ?_ ⟨fun _ hcall => (by cases hcall), rfl⟩ h
  · exact hcalls.2
  intro c d ⟨hanswered, hvalue⟩ hstep
  refine ⟨hanswered.step hstep, ?_⟩
  -- The value changes with a call only, and then as the step says.
  rcases value_of_step hstep with ⟨hsame, hkept⟩ | ⟨node, answer, hadded, hnext⟩
  · rw [hsame, hkept, hvalue]
  · obtain ⟨before, left, hcall⟩ := hanswered.step hstep ⟨node, c.state, c.value, .ok answer⟩
      (by simp [hadded])
    have hfolded := Evaluator.value?_of_ofFold hcall
    rw [hnext] at hfolded
    rw [Option.some.inj hfolded, hadded, hvalue, List.map_append]
    rfl

/-- A walk that lists nodes and ends returns those it called, or fails. -/
theorem exists_result?_listing {o : Outcome N K S (List N) V E W L}
    (ho : (g.folding cut listed).reduce budget root context [] memory heard = o)
    (hended : o.Ended) :
    ∃ nodes, ∃ ending : Except (Failure N V E) (State N K S), o.config.calls.map Call.node = nodes ∧
      o.result? = some (ending.map fun s => (nodes, s, nodes.length)) := by
  refine ⟨o.config.calls.map Call.node, ?_⟩
  cases o with
  | unfinished c => exact absurd rfl (hended c)
  | failed f c => exact ⟨.error f, rfl, rfl⟩
  | finished c =>
    obtain ⟨n, hn, _⟩ := (g.folding cut listed).exists_of_run_finished ho
    refine ⟨.ok c.state, rfl, ?_⟩
    have hvalue := value_of_listing hn
    have hcount := evaluations_eq_length_calls hn
    rw [Outcome.result?, hvalue, hcount, Outcome.config, List.length_map]
    rfl

/-! ## §3 Walks -/

variable (g cut budget root context memory heard)

/-- The walk of any fold calls the nodes of the list. It returns the fold of them, or fails, where
the list is returned or the walk of the list fails. -/
theorem folding_of_listing (step : N → B → B) (init : B) :
    ((g.folding cut step).reduce budget root context init memory heard).config.calls.map Call.node =
      ((g.folding cut listed).reduce budget root context [] memory heard).config.calls.map
        Call.node ∧
    ((g.folding cut step).reduce budget root context init memory heard).result? =
      ((g.folding cut listed).reduce budget root context [] memory heard).result?.map
        (Except.map (Prod.map (List.foldl (fun b node => step node b) init) id)) := by
  have hlisted : ∀ node nodes, (listed node nodes).foldl (fun b node => step node b) init =
      step node (nodes.foldl (fun b node => step node b) init) := fun node nodes => by
    rw [listed, List.foldl_append]
    rfl
  have hmatches := g.matches_folding cut budget root context memory heard listed step
    (List.foldl (fun b node => step node b) init) hlisted []
  exact ⟨hmatches.config.map_node_calls, hmatches.result?_eq⟩

/-- The nodes a walk folds over do not depend on the step. Either no fold from this root ends; or
there is one list of nodes and one ending, with a state or a failure, such that the walk of every
step, from every value, calls the nodes of the list in order and ends in this way, and if it returns
a value, this is the left fold of the list, counted by its length. So a function that takes one step
to another takes what the walk of the one returns to what the walk of the other does. -/
theorem folds_one_order :
    ((∀ (B : Type) (step : N → B → B) (init : B) (budget : Nat),
        ((g.folding cut step).reduce budget root context init memory heard).result? = none) ∨
      ∃ (nodes : List N) (ending : Except (Failure N V E) (State N K S)) (enough : Nat),
        ∀ (B : Type) (step : N → B → B) (init : B) (budget : Nat), enough ≤ budget →
          ((g.folding cut step).reduce budget root context init memory heard).FoldsOver step init
            nodes ending) ∧
    ∀ (B C : Type) (step : N → B → B) (step' : N → C → C) (f : B → C),
      (∀ node b, f (step node b) = step' node (f b)) → ∀ (init : B) (budget : Nat),
        ((g.folding cut step').reduce budget root context (f init) memory heard).result? =
          ((g.folding cut step).reduce budget root context init memory heard).result?.map
            (Except.map (Prod.map f id)) := by
  constructor
  · -- Every fold ends where the list does.
    by_cases hends : ∃ n, ((g.folding cut listed).reduce n root context [] memory heard).Ended
    · obtain ⟨n, hn⟩ := hends
      obtain ⟨nodes, ending, hnodes, hending⟩ := exists_result?_listing rfl hn
      refine .inr ⟨nodes, ending, n, fun B step init budget hle => ?_⟩
      have hlater := (g.folding cut listed).run_of_le hle hn
      rw [← reduce, ← reduce] at hlater
      obtain ⟨hcalls, hresult⟩ :=
        g.folding_of_listing cut budget root context memory heard step init
      rw [hlater] at hcalls hresult
      refine ⟨hcalls.trans hnodes, ?_⟩
      rw [hresult, hending]
      cases ending <;> rfl
    · refine .inl fun B step init budget => ?_
      obtain ⟨_, hresult⟩ := g.folding_of_listing cut budget root context memory heard step init
      rw [hresult]
      cases ho : (g.folding cut listed).reduce budget root context [] memory heard with
      | unfinished c => rfl
      | finished c => exact absurd ⟨budget, ho ▸ Outcome.ended_finished c⟩ hends
      | failed f c => exact absurd ⟨budget, ho ▸ Outcome.ended_failed f c⟩ hends
  · intro B C step step' f hf init budget
    exact (g.matches_folding cut budget root context memory heard step step' f hf init).result?_eq

-- The children of 2 are left out, since 3 has been seen by then; the order is 0, 1, 3, 2.
example : (((counting (fun | 0 => [1, 2] | 1 => [3] | 2 => [4] | _ => []) fun _ => false).folding
    (some fun node s => pure (node == 2 && s.isSeen 3)) fun node total => total + node).reduce
      40 0 () 10 () ()).result?.map (Except.map fun r => (r.1, r.2.2)) = some (.ok (16, 4)) := rfl

end Setting

end GraphFold
