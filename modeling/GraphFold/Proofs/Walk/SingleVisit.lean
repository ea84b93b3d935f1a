/-
GraphFold.Proofs.Walk.SingleVisit — no key is evaluated twice unless it was dropped.

An evaluator may replace the state at any call, so a key can come up again; but
only after some call returned a state without it. The walk itself never drops a
key: every evaluated node is marked in the state its call returned, and from
then on the seen set changes with the next call only. `Guarded` is that
invariant.

For an evaluator that keeps what was seen, more holds of the whole journal:
what an entry knows, every later state knows (`Remembers`).

  §1 Dropped keys — between two calls on one key lies a call that dropped it.
  §2 Kept keys    — `Evaluator.KeepsSeen`, and the journal under it.
  §3 Counts       — as many keys as calls.
  §4 The walk     — all of it for a walk from a root.
-/
import GraphFold.Proofs.Walk.Journal

namespace GraphFold

variable {N K S A V E W L : Type} [Ord K]

/-! ## §1 Dropped keys -/

/-- The call returned a state in which the key has not been seen. -/
def Call.Drops (call : Call N K S A V E) (key : K) : Prop :=
  ∃ given, call.returned? = some given ∧ given.isSeen key = false

namespace Setting

variable (g : Setting N K S A V E W L)

/-- The key of every call so far has been seen, unless a call after it dropped the key. -/
def Guarded (c : Config N K S A V E W L) : Prop :=
  ∀ (i : Nat) (call : Call N K S A V E) (key : K), c.calls[i]? = some call →
    g.identity call.node = .ok key →
    c.state.isSeen key = true ∨
      ∃ (m : Nat) (later : Call N K S A V E), i < m ∧ c.calls[m]? = some later ∧ later.Drops key

/-- Between two calls on equal keys lies a call that dropped the key. -/
def Spaced (calls : List (Call N K S A V E)) : Prop :=
  ∀ (i j : Nat) (a b : Call N K S A V E), i < j → calls[i]? = some a → calls[j]? = some b →
    g.SameKey a.node b.node →
    ∃ (m : Nat) (key : K) (later : Call N K S A V E), i < m ∧ m < j ∧
      g.identity a.node = .ok key ∧ calls[m]? = some later ∧ later.Drops key

variable {g}

/-- The calls of a start are guarded, for there are none. -/
theorem guarded_start (root : N) (context : S) (value : A) (memory : W) (heard : L) :
    g.Guarded (.start root context value memory heard) := by
  intro i call key hi
  cases hi

variable [Std.TransOrd K]

/-- Every step keeps the calls guarded. -/
theorem Guarded.step {c d : Config N K S A V E W L} (hc : g.Guarded c)
    (h : g.step c = .running d) : g.Guarded d := by
  intro i call key hi hkey
  rcases called_of_step h with ⟨hcalls, _, hseen⟩ | ⟨node, key', answer, given, hcalled⟩
  · rw [hcalls] at hi ⊢
    rw [State.isSeen, hseen]
    exact hc i call key hi hkey
  · have hreturned : Call.returned? (⟨node, c.state, c.value, .ok answer⟩ :
        Call N K S A V E) = some given := hcalled.state?_eq
    rw [hcalled.calls_eq] at hi ⊢
    rw [State.isSeen, hcalled.seen_eq, ← State.isSeen, State.isSeen_mark]
    rcases Nat.lt_or_ge i c.calls.length with hlt | hge
    · rw [List.getElem?_append_left hlt] at hi
      rcases hc i call key hi hkey with _ | ⟨m, later, him, hm, hdrops⟩
      · cases hgiven : given.isSeen key with
        | true => exact .inl (by simp)
        | false => exact .inr ⟨c.calls.length, _, hlt, by simp, given, hreturned, hgiven⟩
      · refine .inr ⟨m, later, him, ?_, hdrops⟩
        rw [List.getElem?_append_left (List.getElem?_eq_some_iff.1 hm).1]
        exact hm
    · -- The last call is the new one, and its own key was marked.
      rw [List.getElem?_append_right hge, List.getElem?_singleton] at hi
      split at hi
      · cases hi
        rw [hcalled.identity_eq] at hkey
        cases hkey
        exact .inl (by simp)
      · cases hi

/-- A call on a node that is new keeps the calls spaced. -/
theorem Spaced.append {c : Config N K S A V E W L} {node : N} {key : K} {state : State N K S}
    {value : A} {answer : Except E (Answer N K S A V)} (h : g.Spaced c.calls)
    (hguarded : g.Guarded c) (hkey : g.identity node = .ok key)
    (hseen : c.state.isSeen key = false) :
    g.Spaced (c.calls ++ [⟨node, state, value, answer⟩]) := by
  intro i j a b hij hi hj hsame
  have hjle : j ≤ c.calls.length := by
    have := (List.getElem?_eq_some_iff.1 hj).1
    simp at this
    omega
  rw [List.getElem?_append_left (by omega)] at hi
  rcases Nat.lt_or_ge j c.calls.length with hlt | hge
  · rw [List.getElem?_append_left hlt] at hj
    obtain ⟨m, key', later, him, hmj, hkey', hm, hdrops⟩ := h i j a b hij hi hj hsame
    refine ⟨m, key', later, him, hmj, hkey', ?_, hdrops⟩
    rw [List.getElem?_append_left (by omega)]
    exact hm
  · -- The later call is the new one: its key has not been seen, so the earlier one was dropped.
    obtain rfl : j = c.calls.length := by omega
    simp at hj
    subst hj
    obtain ⟨ka, kb, hka, hkb, heq⟩ := hsame
    rw [hkey] at hkb
    cases hkb
    rcases hguarded i a ka hi hka with hold | ⟨m, later, him, hm, hdrops⟩
    · rw [c.state.isSeen_congr heq, hseen] at hold
      cases hold
    · have hmlt := (List.getElem?_eq_some_iff.1 hm).1
      refine ⟨m, ka, later, him, hmlt, hka, ?_, hdrops⟩
      rw [List.getElem?_append_left hmlt]
      exact hm

/-- The calls of a walk are spaced, however it ends. -/
theorem spaced_reduce (budget : Nat) (root : N) (context : S) (value : A) (memory : W)
    (heard : L) : g.Spaced (g.reduce budget root context value memory heard).config.calls := by
  refine calls_induction (P := g.Guarded) (fun _ _ hc h => hc.step h) ?_
    (guarded_start root context value memory heard) (fun i j a b _ hi => by cases hi)
  rintro c ⟨node, state, value, answer⟩ hguarded hspaced hat
  obtain ⟨key, hkey, hseen⟩ := hat.fresh
  exact hspaced.append hguarded hkey hseen

end Setting

/-! ## §2 Kept keys -/

/-- Every state the evaluator returns keeps the keys of the state it was given. -/
def Evaluator.KeepsSeen (evaluator : Evaluator N K S A V E W) : Prop :=
  ∀ node s value memory answer left given,
    (evaluator node s value).perform memory = (.ok answer, left) → answer.state? = some given →
    ∀ key, s.isSeen key = true → given.isSeen key = true

/-- No state the evaluator returns has a key that the state it was given has not. -/
def Evaluator.AddsNone (evaluator : Evaluator N K S A V E W) : Prop :=
  ∀ node s value memory answer left given,
    (evaluator node s value).perform memory = (.ok answer, left) → answer.state? = some given →
    ∀ key, given.isSeen key = true → s.isSeen key = true

namespace Evaluator

variable {step : N → A → Action W E A} {prune : Option (N → State N K S → Action W E Bool)}

/-- An evaluator that folds with a step returns the state it was given. -/
theorem state?_of_ofFold {node : N} {s : State N K S} {value : A} {memory left : W}
    {answer : Answer N K S A V}
    (h : (ofFold step prune node s value).perform memory = (.ok answer, left)) :
    answer.state? = some s := by
  unfold ofFold at h
  rw [Action.perform_bind] at h
  rcases hstep : (step node value).perform memory with ⟨e | folded, next⟩
  · rw [hstep] at h
    cases h
  · rw [hstep] at h
    cases prune with
    | none => cases h; rfl
    | some cut =>
      simp only [Action.perform_bind] at h
      rcases hcut : (cut node s).perform next with ⟨e | _ | _, last⟩ <;> rw [hcut] at h <;>
        cases h <;> rfl

theorem keepsSeen_ofFold : (ofFold step prune : Evaluator N K S A V E W).KeepsSeen := by
  intro node s value memory answer left given h hgiven key hkey
  rw [state?_of_ofFold h] at hgiven
  cases hgiven
  exact hkey

theorem addsNone_ofFold : (ofFold step prune : Evaluator N K S A V E W).AddsNone := by
  intro node s value memory answer left given h hgiven key hkey
  rw [state?_of_ofFold h] at hgiven
  cases hgiven
  exact hkey

end Evaluator

/-- Counts the nodes of a graph over numbers, leaving out the children of those that are cut. -/
def Setting.counting (kids : Nat → List Nat) (cut : Nat → Bool) :
    Setting Nat Nat Unit Nat Unit Unit Unit Unit where
  identity := .ok
  children := fun node _ => pure (.ok (.ofNodes (kids node)))
  evaluator := .ofFold (fun _ count => pure (count + 1)) (some fun node _ => pure (cut node))
  limits := ⟨none, true⟩
  listener := none

namespace Setting

theorem keepsSeen_counting (kids : Nat → List Nat) (cut : Nat → Bool) :
    (counting kids cut).evaluator.KeepsSeen := by
  unfold counting
  dsimp only
  exact Evaluator.keepsSeen_ofFold

theorem addsNone_counting (kids : Nat → List Nat) (cut : Nat → Bool) :
    (counting kids cut).evaluator.AddsNone := by
  unfold counting
  dsimp only
  exact Evaluator.addsNone_ofFold

variable (g : Setting N K S A V E W L)

/-- An entry of the journal knows the keys of its state and, if it is a call, that of the node. -/
def Knows (entry : Entry N K S A V E) (key : K) : Prop :=
  (∃ s, entry.state? = some s ∧ s.isSeen key = true) ∨
    ∃ call own, entry.call? = some call ∧ g.identity call.node = .ok own ∧ compare own key = .eq

/-- What an entry knows, every later entry and the state `s` know. -/
structure Remembers (journal : List (Entry N K S A V E)) (s : State N K S) : Prop where
  pairwise : journal.Pairwise fun later earlier =>
    ∀ key t, g.Knows earlier key → later.state? = some t → t.isSeen key = true
  isSeen : ∀ entry ∈ journal, ∀ key, g.Knows entry key → s.isSeen key = true

variable {g}

namespace Remembers

variable {journal : List (Entry N K S A V E)} {s t : State N K S}

theorem mono (h : g.Remembers journal s) (hst : ∀ key, s.isSeen key = true → t.isSeen key = true) :
    g.Remembers journal t :=
  ⟨h.pairwise, fun entry hentry key hknows => hst key (h.isSeen entry hentry key hknows)⟩

/-- Entries that are about no call and no state do not matter. -/
theorem append {told : List (Entry N K S A V E)} (h : g.Remembers journal s)
    (htold : ∀ entry ∈ told, entry.call? = none ∧ entry.state? = none) :
    g.Remembers (told ++ journal) s := by
  have hnone : ∀ entry ∈ told, ∀ key, ¬ g.Knows entry key := by
    rintro entry hentry key (⟨u, hu, _⟩ | ⟨call, _, hcall, _⟩)
    · rw [(htold entry hentry).2] at hu
      cases hu
    · rw [(htold entry hentry).1] at hcall
      cases hcall
  constructor
  · refine List.pairwise_append.2 ⟨?_, h.pairwise, ?_⟩
    · exact List.pairwise_of_forall_mem_list fun a _ b hb key u hknows _ =>
        absurd hknows (hnone b hb key)
    · intro a ha b _ key u _ hu
      rw [(htold a ha).2] at hu
      cases hu
  · intro entry hentry key hknows
    rcases List.mem_append.1 hentry with hnew | hold
    · exact absurd hknows (hnone entry hnew key)
    · exact h.isSeen entry hold key hknows

/-- An entry with the state at hand may be added, if the state after it knows as much. -/
theorem cons {entry : Entry N K S A V E} (h : g.Remembers journal s)
    (hstate : entry.state? = some s) (hknown : ∀ key, g.Knows entry key → t.isSeen key = true) :
    g.Remembers (entry :: journal) t := by
  have hst : ∀ key, s.isSeen key = true → t.isSeen key = true :=
    fun key hkey => hknown key (.inl ⟨s, hstate, hkey⟩)
  constructor
  · refine List.pairwise_cons.2 ⟨?_, h.pairwise⟩
    intro earlier hearlier key u hknows hu
    rw [hstate] at hu
    cases hu
    exact h.isSeen earlier hearlier key hknows
  · intro e he key hknows
    rcases List.mem_cons.1 he with rfl | hold
    · exact hknown key hknows
    · exact hst key (h.isSeen e hold key hknows)

/-- An entry that is no call changes nothing. -/
theorem cons_of_call?_eq_none {entry : Entry N K S A V E} (h : g.Remembers journal s)
    (hstate : entry.state? = some s) (hcall : entry.call? = none) :
    g.Remembers (entry :: journal) s := by
  refine h.cons hstate ?_
  rintro key (⟨u, hu, hkey⟩ | ⟨call, _, hcall', _⟩)
  · rw [hstate] at hu
    cases hu
    exact hkey
  · rw [hcall] at hcall'
    cases hcall'

theorem arrived (h : g.Remembers journal s) (node : N) :
    g.Remembers (.arrived node s :: journal) s :=
  h.cons_of_call?_eq_none rfl rfl

theorem asked (h : g.Remembers journal s) (node : N) (count : Option Nat) :
    g.Remembers (.asked node s count :: journal) s :=
  h.cons_of_call?_eq_none rfl rfl

variable [Std.TransOrd K]

/-- After a call its node is marked. -/
theorem cons_called {node : N} {key : K} {given : State N K S} (h : g.Remembers journal s)
    (value : A) (answer : Except E (Answer N K S A V)) (hkey : g.identity node = .ok key)
    (hkept : ∀ k, s.isSeen k = true → given.isSeen k = true) (above : List N) :
    g.Remembers (.called node s value answer :: journal)
      ((given.mark key).withAncestors above) := by
  refine h.cons rfl ?_
  rintro k (⟨u, hu, hk⟩ | ⟨call, own, hcall, hown, heq⟩)
  · cases hu
    simp [hkept k hk]
  · cases hcall
    rw [hkey] at hown
    cases hown
    simp [heq]

end Remembers

theorem Remembers.report {c : Config N K S A V E W L} {journal : List (Entry N K S A V E)}
    {s : State N K S} {kind : EventKind} {node : N} {depth : Nat} (h : g.Remembers journal s)
    (hjournal : c.journal = journal) :
    g.Remembers (c.report g.listener kind node depth).journal s := by
  obtain ⟨told, htold, hsilent⟩ := c.report_journal g.listener kind node depth
  rw [htold, hjournal]
  exact h.append hsilent

variable [Std.TransOrd K]

/-- After an answer of an evaluator that keeps keys the node is marked in the state it carries. -/
theorem Remembers.answered {c : Config N K S A V E W L} (hkeeps : g.evaluator.KeepsSeen)
    (hc : g.Remembers c.journal c.state) {node : N} {key : K} {answer : Answer N K S A V}
    {given : State N K S} {memory : W} (hkey : g.identity node = .ok key)
    (hcall : (g.evaluator node c.state c.value).perform c.memory = (.ok answer, memory))
    (hgiven : answer.state? = some given) :
    g.Remembers (.called node c.state c.value (.ok answer) :: .arrived node c.state :: c.journal)
      ((given.mark key).withAncestors c.state.ancestors) :=
  (hc.arrived node).cons_called _ _ hkey (hkeeps _ _ _ _ _ _ _ hcall hgiven) _

/-- Under an evaluator that keeps keys every step remembers. -/
theorem Remembers.step {c d : Config N K S A V E W L} (hkeeps : g.evaluator.KeepsSeen)
    (hc : g.Remembers c.journal c.state) (h : g.step c = .running d) :
    g.Remembers d.journal d.state := by
  have hmove := g.move c
  rw [h] at hmove
  cases hmove with
  | handle node p hpending harrival =>
    cases harrival with
    | skipped key hkey hseen =>
      rw [Config.report_state]
      exact (hc.arrived node).report rfl
    | pruned key value given memory hkey hseen hlimit hcall =>
      rw [Config.report_state]
      exact (hc.answered hkeeps hkey hcall rfl).report rfl
    | opened key value given memory pulls left hkey hseen hlimit hcall hlookup =>
      have hasked := (hc.answered hkeeps hkey hcall rfl).asked node (some pulls.each.length)
      exact (hasked.report rfl).mono fun _ hk => hk
  | pull => exact hc
  | drop => exact hc.mono fun _ hk => hk

/-- So does a step that fails, up to some state. -/
theorem Remembers.step_failed {c d : Config N K S A V E W L} {f : Failure N V E}
    (hkeeps : g.evaluator.KeepsSeen) (hc : g.Remembers c.journal c.state)
    (h : g.step c = .failed f d) : ∃ s, g.Remembers d.journal s := by
  have hmove := g.move c
  rw [h] at hmove
  cases hmove with
  | handle node p hpending harrival =>
    cases harrival with
    | unkeyed e hkey => exact ⟨_, hc.arrived node⟩
    | tooDeep key limit hkey hseen hlimit hdeep => exact ⟨_, (hc.arrived node).report rfl⟩
    | raised key e memory hkey hseen hlimit hcall =>
      exact ⟨_, (hc.arrived node).cons_called _ _ hkey (fun _ hk => hk) []⟩
    | refused key answer f memory hkey hseen hlimit hcall hrefused =>
      exact ⟨_, (hc.arrived node).cons_called _ _ hkey (fun _ hk => hk) []⟩
    | rejected key reason memory hkey hseen hlimit hcall =>
      exact ⟨_, ((hc.arrived node).cons_called _ _ hkey (fun _ hk => hk) []).report rfl⟩
    | unlisted key value given memory e left hkey hseen hlimit hcall hlookup =>
      exact ⟨_, (hc.answered hkeeps hkey hcall rfl).asked node none⟩
    | notListed key value given memory e left hkey hseen hlimit hcall hlookup =>
      exact ⟨_, ((hc.answered hkeeps hkey hcall rfl).asked node none).report rfl⟩
  | pullRaised | dropRaised => exact ⟨_, hc⟩

end Setting

/-! ## §3 Counts -/

/-- Keys that are told apart and have all been seen are at most as many as the keys seen. -/
theorem State.length_le_seenCount [Std.TransOrd K] {keys : List K} {s : State N K S}
    (hdistinct : keys.Pairwise fun a b => compare a b ≠ .eq)
    (hseen : ∀ key ∈ keys, s.isSeen key = true) : keys.length ≤ s.seenCount := by
  induction keys generalizing s with
  | nil => exact Nat.zero_le _
  | cons key later ih =>
    rw [List.pairwise_cons] at hdistinct
    have hkey : s.seen.contains key = true := hseen key (List.mem_cons_self ..)
    have hrest := ih (s := { s with seen := s.seen.erase key }) hdistinct.2 fun other hother => by
      rw [isSeen, Std.TreeSet.contains_erase, Bool.and_eq_true, bne_iff_ne]
      exact ⟨hdistinct.1 other hother, hseen other (List.mem_cons_of_mem _ hother)⟩
    have hsize : (s.seen.erase key).size = s.seen.size - 1 := by
      rw [Std.TreeSet.size_erase, if_pos hkey]
    have hpos : s.seen.size ≠ 0 := by
      intro hzero
      have hempty : s.seen.isEmpty = true := by rw [Std.TreeSet.isEmpty_eq_size_eq_zero, hzero]; rfl
      rw [Std.TreeSet.isEmpty_iff_forall_contains.1 hempty key] at hkey
      cases hkey
    simp only [seenCount, hsize, List.length_cons] at hrest ⊢
    omega

/-- If every key seen is among these, there are at least as many of them. -/
theorem State.seenCount_le_length [Std.TransOrd K] {keys : List K} {s : State N K S}
    (hseen : ∀ key, s.isSeen key = true → ∃ k ∈ keys, compare k key = .eq) :
    s.seenCount ≤ keys.length := by
  induction keys generalizing s with
  | nil =>
    have hempty : s.seen.isEmpty = true := by
      rw [Std.TreeSet.isEmpty_iff_forall_contains]
      intro key
      cases hkey : s.seen.contains key with
      | false => rfl
      | true =>
        obtain ⟨_, hmem, _⟩ := hseen key hkey
        cases hmem
    rw [Std.TreeSet.isEmpty_eq_size_eq_zero] at hempty
    exact Nat.le_of_eq (eq_of_beq hempty)
  | cons key later ih =>
    have hrest := ih (s := { s with seen := s.seen.erase key }) fun other hother => by
      rw [isSeen, Std.TreeSet.contains_erase, Bool.and_eq_true, bne_iff_ne] at hother
      obtain ⟨k, hk, heq⟩ := hseen other hother.2
      rcases List.mem_cons.1 hk with rfl | hk
      · exact absurd heq hother.1
      · exact ⟨k, hk, heq⟩
    have hsize : s.seen.size ≤ (s.seen.erase key).size + 1 := Std.TreeSet.size_le_size_erase
    simp only [seenCount, List.length_cons] at hrest ⊢
    omega

namespace Setting

variable (g : Setting N K S A V E W L)

/-- The keys of the nodes that were called. -/
def keys (calls : List (Call N K S A V E)) : List K :=
  calls.filterMap fun call => (g.identity call.node).toOption

variable {g}

theorem toOption_identity {node : N} {key : K} :
    (g.identity node).toOption = some key ↔ g.identity node = .ok key := by
  cases g.identity node <;> simp [Except.toOption]

theorem mem_keys {calls : List (Call N K S A V E)} {key : K} :
    key ∈ g.keys calls ↔ ∃ call ∈ calls, g.identity call.node = .ok key := by
  simp only [keys, List.mem_filterMap, toOption_identity]

theorem length_keys {calls : List (Call N K S A V E)}
    (h : ∀ call ∈ calls, ∃ key, g.identity call.node = .ok key) :
    (g.keys calls).length = calls.length := by
  induction calls with
  | nil => rfl
  | cons call later ih =>
    obtain ⟨key, hkey⟩ := h call (List.mem_cons_self ..)
    have hlater := ih fun c hc => h c (List.mem_cons_of_mem _ hc)
    rw [keys] at hlater ⊢
    simp only [List.filterMap_cons, toOption_identity.2 hkey, List.length_cons, hlater]

theorem pairwise_keys {calls : List (Call N K S A V E)}
    (h : calls.Pairwise fun a b => ¬ g.SameKey a.node b.node) :
    (g.keys calls).Pairwise fun a b => compare a b ≠ .eq := by
  rw [keys, List.pairwise_filterMap]
  refine h.imp ?_
  intro a b hab ka hka kb hkb heq
  exact hab ⟨ka, kb, toOption_identity.1 hka, toOption_identity.1 hkb, heq⟩

/-! ## §4 The walk -/

theorem mem_calls {journal : List (Entry N K S A V E)} {call : Call N K S A V E} :
    call ∈ Entry.calls journal ↔ ∃ entry ∈ journal, entry.call? = some call := by
  rw [Entry.calls, List.mem_reverse, List.mem_filterMap]

/-- A call is made in the state its entry is about. -/
theorem state?_of_call? {entry : Entry N K S A V E} {call : Call N K S A V E}
    (h : entry.call? = some call) : entry.state? = some call.state := by
  cases entry <;> cases h
  rfl

/-- The nodes of these calls were new when they were called. -/
def Fresh (g : Setting N K S A V E W L) (calls : List (Call N K S A V E)) : Prop :=
  ∀ call ∈ calls, ∃ key, g.identity call.node = .ok key ∧ call.state.isSeen key = false

theorem Fresh.append {calls : List (Call N K S A V E)} {call : Call N K S A V E} {key : K}
    (h : g.Fresh calls) (hkey : g.identity call.node = .ok key)
    (hseen : call.state.isSeen key = false) : g.Fresh (calls ++ [call]) := by
  intro other hother
  rcases List.mem_append.1 hother with hold | hnew
  · exact h other hold
  · rw [List.mem_singleton.1 hnew]
    exact ⟨key, hkey, hseen⟩

/-- Every node a walk evaluates is new at that time. -/
theorem fresh_reduce (budget : Nat) (root : N) (context : S) (value : A) (memory : W)
    (heard : L) : g.Fresh (g.reduce budget root context value memory heard).config.calls := by
  refine calls_induction (P := fun _ => True) (fun _ _ _ _ => trivial) ?_ trivial
    (fun call hcall => by cases hcall)
  intro c call _ hc hat
  obtain ⟨key, hkey, hseen⟩ := hat.fresh
  exact hc.append hkey (by rw [hat.state_eq]; exact hseen)

/-- A walk that goes on counted every call. -/
theorem evaluations_eq_length_calls {n : Nat} {root : N} {context : S} {value : A} {memory : W}
    {heard : L} {c : Config N K S A V E W L}
    (h : g.run n (.start root context value memory heard) = .unfinished c) :
    c.evaluations = c.calls.length := by
  refine g.invariant_of_run (P := fun c => c.evaluations = c.calls.length) ?_ rfl h
  intro c d hc h
  rcases called_of_step h with ⟨hcalls, hcount, _⟩ | ⟨node, key, answer, given, hcalled⟩
  · rw [hcalls, hcount, hc]
  · rw [hcalled.calls_eq, hcalled.evaluations_eq, hc, List.length_append]
    rfl

variable [Std.TransOrd K]

/-- A node whose key an entry knows is not evaluated after it. -/
theorem Remembers.not_sameKey {journal : List (Entry N K S A V E)} {s : State N K S}
    (h : g.Remembers journal s) (hfresh : g.Fresh (Entry.calls journal)) :
    journal.Pairwise fun later earlier => ∀ node key call, g.identity node = .ok key →
      g.Knows earlier key → later.call? = some call → ¬ g.SameKey call.node node := by
  refine h.pairwise.imp_of_mem ?_
  rintro later earlier hlater _ hknown node key call hkey hknows hcall ⟨own, key', hown, hkey', heq⟩
  rw [hkey] at hkey'
  cases hkey'
  obtain ⟨own', hown', hunseen⟩ := hfresh call (mem_calls.2 ⟨later, hlater, hcall⟩)
  rw [hown] at hown'
  cases hown'
  have hseen := hknown key call.state hknows (state?_of_call? hcall)
  rw [← call.state.isSeen_congr heq, hunseen] at hseen
  cases hseen

/-- The keys of the calls are pairwise distinct. -/
theorem Remembers.pairwise_calls {journal : List (Entry N K S A V E)} {s : State N K S}
    (h : g.Remembers journal s) (hfresh : g.Fresh (Entry.calls journal)) :
    (Entry.calls journal).Pairwise fun a b => ¬ g.SameKey a.node b.node := by
  rw [Entry.calls, List.pairwise_reverse, List.pairwise_filterMap]
  refine (h.not_sameKey hfresh).imp ?_
  rintro later earlier hnot b hb a ha ⟨ka, kb, hka, hkb, heq⟩
  exact hnot a.node ka b hka (.inr ⟨a, ka, ha, hka, Std.ReflCmp.compare_self⟩) hb
    ⟨kb, ka, hkb, hka, Std.OrientedCmp.eq_symm heq⟩

/-- Under an evaluator that keeps keys, every point of a walk remembers. -/
theorem remembers_of_run (hkeeps : g.evaluator.KeepsSeen) {n : Nat} {root : N} {context : S}
    {value : A} {memory : W} {heard : L} {c : Config N K S A V E W L}
    (h : g.run n (.start root context value memory heard) = .unfinished c) :
    g.Remembers c.journal c.state :=
  g.invariant_of_run (P := fun c => g.Remembers c.journal c.state)
    (fun _ _ hc h => hc.step hkeeps h) ⟨.nil, fun _ he => by cases he⟩ h

/-- So does its end, up to some state. -/
theorem remembers_reduce (hkeeps : g.evaluator.KeepsSeen) (budget : Nat) (root : N) (context : S)
    (value : A) (memory : W) (heard : L) :
    ∃ s, g.Remembers (g.reduce budget root context value memory heard).config.journal s :=
  g.invariant_of_outcome (P := fun c => g.Remembers c.journal c.state)
    (Q := fun c => ∃ s, g.Remembers c.journal s) (fun c hc => ⟨c.state, hc⟩)
    (fun _ _ hc h => hc.step hkeeps h) (fun _ _ _ hc h => hc.step_failed hkeeps h)
    ⟨.nil, fun _ he => by cases he⟩

/-- The key of every call so far has been seen. -/
theorem Remembers.isSeen_of_mem_calls {c : Config N K S A V E W L}
    (h : g.Remembers c.journal c.state) {call : Call N K S A V E} {key : K}
    (hcall : call ∈ c.calls) (hkey : g.identity call.node = .ok key) :
    c.state.isSeen key = true := by
  obtain ⟨entry, hentry, he⟩ := mem_calls.1 hcall
  exact h.isSeen entry hentry key (.inr ⟨call, key, he, hkey, Std.ReflCmp.compare_self⟩)

/-- Under an evaluator that adds no keys, nothing else has been seen. -/
theorem exists_key_of_isSeen (hadds : g.evaluator.AddsNone) {n : Nat} {root : N} {context : S}
    {value : A} {memory : W} {heard : L} {c : Config N K S A V E W L}
    (h : g.run n (.start root context value memory heard) = .unfinished c) :
    ∀ key, c.state.isSeen key = true → ∃ k ∈ g.keys c.calls, compare k key = .eq := by
  refine g.invariant_of_run (P := fun c => ∀ key, c.state.isSeen key = true →
    ∃ k ∈ g.keys c.calls, compare k key = .eq) ?_ ?_ h
  · intro c d hc h key hkey
    rcases called_of_step h with ⟨hcalls, _, hseen⟩ | ⟨node, own, answer, given, hcalled⟩
    · rw [State.isSeen, hseen] at hkey
      rw [hcalls]
      exact hc key hkey
    · rw [State.isSeen, hcalled.seen_eq, ← State.isSeen, State.isSeen_mark, Bool.or_eq_true,
        beq_iff_eq] at hkey
      rw [hcalled.calls_eq]
      rcases hkey with heq | hgiven
      · have hlast := List.mem_append_right c.calls (List.mem_singleton_self
          (⟨node, c.state, c.value, .ok answer⟩ : Call N K S A V E))
        exact ⟨own, mem_keys.2 ⟨_, hlast, hcalled.identity_eq⟩, heq⟩
      · obtain ⟨memory, hcall⟩ := hcalled.perform_eq
        obtain ⟨k, hk, heq⟩ := hc key (hadds _ _ _ _ _ _ _ hcall hcalled.state?_eq key hgiven)
        obtain ⟨call, hmem, hid⟩ := mem_keys.1 hk
        exact ⟨k, mem_keys.2 ⟨call, List.mem_append_left _ hmem, hid⟩, heq⟩
  · intro key hkey
    simp [Config.start] at hkey

/-- Between two calls on equal keys lies a call that returned a state without the key, and every
node is new when it is called. So if the evaluator keeps keys, no key is evaluated twice; one that
was seen when the walk arrived at its node is not evaluated afterwards; whatever the evaluator was
called on is in every later state; and a walk that comes to its end has seen at least as many keys
as it made calls, and as many if the evaluator does not add keys. -/
theorem evaluates_once (g : Setting N K S A V E W L) (budget : Nat) (root : N) (context : S)
    (value : A) (memory : W) (heard : L) (o : Outcome N K S A V E W L)
    (ho : g.reduce budget root context value memory heard = o) :
    (∀ (i j : Nat) (a b : Call N K S A V E), i < j → o.config.calls[i]? = some a →
      o.config.calls[j]? = some b → g.SameKey a.node b.node →
      ∃ (m : Nat) (key : K) (call : Call N K S A V E) (given : State N K S), i < m ∧ m < j ∧
        g.identity a.node = .ok key ∧ o.config.calls[m]? = some call ∧
        call.returned? = some given ∧ given.isSeen key = false) ∧
    (∀ call ∈ o.config.calls, ∃ key, g.identity call.node = .ok key ∧
      call.state.isSeen key = false) ∧
    (g.evaluator.KeepsSeen →
      (o.config.calls.Pairwise fun a b => ¬ g.SameKey a.node b.node) ∧
      (∀ earlier later node s key, o.config.journal.reverse = earlier ++ .arrived node s :: later →
        g.identity node = .ok key → s.isSeen key = true →
        ∀ entry ∈ later, ∀ call, entry.call? = some call → ¬ g.SameKey call.node node) ∧
      (o.config.journal.reverse.Pairwise fun earlier later => ∀ call key s,
        earlier.call? = some call → g.identity call.node = .ok key → later.state? = some s →
        s.isSeen key = true) ∧
      (∀ c, o = .unfinished c ∨ o = .finished c → ∀ call ∈ c.calls, ∀ key,
        g.identity call.node = .ok key → c.state.isSeen key = true) ∧
      (∀ c, o = .finished c → c.evaluations ≤ c.state.seenCount ∧
        (g.evaluator.AddsNone → c.evaluations = c.state.seenCount))) := by
  subst ho
  have hfresh := fresh_reduce (g := g) budget root context value memory heard
  refine ⟨?_, hfresh, fun hkeeps => ?_⟩
  · intro i j a b hij ha hb hsame
    obtain ⟨m, key, call, him, hmj, hkey, hm, given, hgiven, hdropped⟩ :=
      spaced_reduce budget root context value memory heard i j a b hij ha hb hsame
    exact ⟨m, key, call, given, him, hmj, hkey, hm, hgiven, hdropped⟩
  obtain ⟨s, hremembers⟩ := remembers_reduce hkeeps budget root context value memory heard
  have hpoint : ∀ c, g.reduce budget root context value memory heard = .unfinished c ∨
      g.reduce budget root context value memory heard = .finished c →
      ∃ n, g.run n (.start root context value memory heard) = .unfinished c := by
    rintro c (h | h)
    · exact ⟨budget, h⟩
    · obtain ⟨n, hn, _⟩ := g.exists_of_run_finished h
      exact ⟨n, hn⟩
  have hdistinct := hremembers.pairwise_calls hfresh
  refine ⟨hdistinct, ?_, ?_, ?_, ?_⟩
  · intro earlier later node t key hsplit hkey hseen entry hentry call hcall
    have hpairs := List.pairwise_reverse.2 (hremembers.not_sameKey hfresh)
    rw [hsplit, List.pairwise_append, List.pairwise_cons] at hpairs
    exact hpairs.2.1.1 entry hentry node key call hkey (.inl ⟨t, rfl, hseen⟩) hcall
  · refine List.pairwise_reverse.2 (hremembers.pairwise.imp ?_)
    intro later earlier hknown call key t hcall hkey ht
    exact hknown key t (.inr ⟨call, key, hcall, hkey, Std.ReflCmp.compare_self⟩) ht
  · intro c hc call hcall key hkey
    obtain ⟨n, hn⟩ := hpoint c hc
    exact (remembers_of_run hkeeps hn).isSeen_of_mem_calls hcall hkey
  · intro c hc
    obtain ⟨n, hn⟩ := hpoint c (.inr hc)
    rw [hc] at hfresh hdistinct
    have hkeyed : (g.keys c.calls).length = c.evaluations := by
      rw [evaluations_eq_length_calls hn]
      refine length_keys fun call hcall => ?_
      obtain ⟨key, hkey, _⟩ := hfresh call hcall
      exact ⟨key, hkey⟩
    have hle : c.evaluations ≤ c.state.seenCount := by
      rw [← hkeyed]
      refine State.length_le_seenCount (pairwise_keys hdistinct) fun key hkey => ?_
      obtain ⟨call, hcall, hid⟩ := mem_keys.1 hkey
      exact (remembers_of_run hkeeps hn).isSeen_of_mem_calls hcall hid
    refine ⟨hle, fun hadds => Nat.le_antisymm hle ?_⟩
    rw [← hkeyed]
    exact State.seenCount_le_length (exists_key_of_isSeen hadds hn)

/-- Three nodes in a ring: the walk comes back to the first, and three calls were made. -/
theorem counting_ring_evaluates_once :
    (counting (fun n => [(n + 1) % 3]) fun _ => false).evaluator.KeepsSeen ∧
      ∃ c, (counting (fun n => [(n + 1) % 3]) fun _ => false).reduce 20 0 () 0 () () = .finished c ∧
        (c.calls.Pairwise fun a b =>
          ¬ (counting (fun n => [(n + 1) % 3]) fun _ => false).SameKey a.node b.node) ∧
        c.evaluations = c.state.seenCount ∧ c.evaluations = 3 := by
  have hkeeps := keepsSeen_counting (fun n => [(n + 1) % 3]) fun _ => false
  have hadds := addsNone_counting (fun n => [(n + 1) % 3]) fun _ => false
  obtain ⟨_, _, honce⟩ := evaluates_once (counting (fun n => [(n + 1) % 3]) fun _ => false)
    20 0 () 0 () () _ rfl
  obtain ⟨hdistinct, _, _, _, hcounts⟩ := honce hkeeps
  exact ⟨hkeeps, _, rfl, hdistinct, (hcounts _ rfl).2 hadds, rfl⟩

end Setting

end GraphFold
