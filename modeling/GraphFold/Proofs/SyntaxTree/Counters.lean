/-
GraphFold.Proofs.SyntaxTree.Counters — the two counters of syntax classes.

Both counters fold the classes of the nodes they call, and a walk calls the same
nodes whatever it folds and whoever listens. So the counters come to one tally,
which is that of the classes of the nodes called, or they fail over the same
error. The nodes called are pairwise told apart by their keys and lead to each
other up to their keys. If different nodes have different keys, these are all
nodes that are reached.

  §1 Walks    — `Scene.nodeWalk`, and the counters as its images.
  §2 Visited  — which nodes are called.
  §3 Counters — `Scene.counters_agree`.
  §4 Pairs    — a module of two nodes that share the module, or a key.
-/
import GraphFold.Census
import GraphFold.Proofs.SyntaxTree.Nodes
import GraphFold.Proofs.SyntaxTree.Tallies
import GraphFold.Proofs.Walk.Silence
import Mathlib.Data.Set.List

namespace GraphFold.Scene

variable (scene : Scene) {root : SyntaxRef}

/-! ## §1 Walks -/

/-- What a counter comes to that starts at a syntax node, where no policy is given and none is the
default. -/
def counted (next : Tally → String → Tally) (listener : Option (Listener Value Heard))
    (budget : Nat) (root : SyntaxRef) : Except ErrorReport Tally :=
  scene.collected ⟨.standard, .inForce none none, budget⟩
    (scene.tally ⟨.standard, .inForce none none, budget⟩ next listener (.syntaxNode root))

/-- The setting of a walk that lists the nodes it calls. -/
def nodeSetting : Setting Value Key Context (List Value) Value Fault Memory Heard :=
  scene.setting .standard Policy.standard.limits
    (.ofFold (fun node nodes => pure (Setting.listed node nodes)) none) none

/-- The walk that lists the nodes it calls. -/
def nodeWalk (budget : Nat) (root : SyntaxRef) : ValueOutcome (List Value) :=
  scene.nodeSetting.reduce budget (.syntaxNode root) (.plain .none) [] (Memory.start false) .nothing

/-- A counter calls the nodes of that walk, and comes to the tally of their classes where the walk
lists them. -/
theorem tally_of_nodeWalk {next : Tally → String → Tally}
    (hnext : Tally.Counts next) (listener : Option (Listener Value Heard)) (budget : Nat)
    (root : SyntaxRef) :
    (scene.tally ⟨.standard, .inForce none none, budget⟩ next listener
        (.syntaxNode root)).config.calls.map Call.node =
      (scene.nodeWalk budget root).config.calls.map Call.node ∧
    (scene.tally ⟨.standard, .inForce none none, budget⟩ next listener
        (.syntaxNode root)).result? =
      (scene.nodeWalk budget root).result?.map
        (Except.map (Prod.map (fun nodes => Tally.ofClasses (nodes.map Value.className)) id)) := by
  have hfold : List.foldl (fun tally (node : Value) => next tally node.className) OrderedMap.empty =
      fun nodes => Tally.ofClasses (nodes.map Value.className) := by
    funext nodes
    rw [← hnext (nodes.map Value.className), List.foldl_map]
  obtain ⟨hcalls, hresult⟩ := (scene.setting .standard Policy.standard.limits (countClasses next)
    listener).folding_of_listing none budget (.syntaxNode root) (.plain .none) (Memory.start false)
      .nothing (fun node tally => next tally node.className) .empty
  -- Who listens to the walk that lists the nodes does not matter.
  obtain ⟨walk, hwalk⟩ : ∃ walk, walk =
      ((scene.setting .standard Policy.standard.limits (countClasses next) listener).folding none
        Setting.listed).reduce budget (.syntaxNode root) (.plain .none) [] (Memory.start false)
          .nothing := ⟨_, rfl⟩
  have hsilent : walk.silence .nothing = scene.nodeWalk budget root := by
    rw [hwalk]
    exact Setting.silence_reduce Heard.nothing _ budget _ _ _ _ _
  rw [← hwalk] at hcalls hresult
  rw [← hsilent, Outcome.calls_silence, Outcome.result?_silence, ← hfold]
  exact ⟨hcalls, hresult⟩

/-- What an analysis reports depends on what its walk comes to. -/
theorem collected_eq {A : Type} (terms : Terms) (o : ValueOutcome A) :
    scene.collected terms o = match o.result? with
      | some (.ok (value, _, _)) => .ok value
      | some (.error failure) => .error (scene.report (scene.regime terms.policy) failure)
      | none => .error (.silent .runtime) := by
  cases o <;> rfl

/-! ## §2 Visited -/

theorem goesOn_nodeSetting : scene.nodeSetting.evaluator.GoesOn :=
  Evaluator.goesOn_ofFold fun node nodes memory => ⟨nodes ++ [node], memory, rfl⟩

/-- The walk ends, for the nodes that are reached have finitely many keys. -/
theorem exists_nodeWalk_ended (root : SyntaxRef) : ∃ n, (scene.nodeWalk n root).Ended := by
  obtain ⟨keys, hkeys⟩ := scene.exists_keys root
  have hlists : scene.nodeSetting.Lists (fun _ => True) (scene.IsReached root) scene.syntaxKids :=
    scene.lists_syntaxNodes root
  refine Setting.exists_ended (P := Setting.Within (fun _ => True) (scene.IsReached root))
    scene.goesOn_nodeSetting.keepsSeen (fun c d hc h => hc.step hlists h)
    (fun c x own hc hx hown => hkeys x own (hc.waits.pending x hx) hown) _
    ⟨trivial, fun x hx => ?_, fun _ hframe => ?_⟩
  · cases hx
    exact ⟨root, .refl, rfl⟩
  · cases hframe

/-- What holds of the nodes a walk visits: they are reached and can be taken, their keys are
pairwise different, and the root has the key of one of them, as has every child of one of them. -/
structure Visits (root : SyntaxRef) (visited : List SyntaxRef) : Prop where
  reaches : ∀ n ∈ visited, scene.SyntaxReaches root n
  takes : ∀ n ∈ visited, scene.Takes n
  apart : visited.Pairwise fun a b => ¬ scene.SameKey a b
  root : ∃ a ∈ visited, scene.SameKey a root
  closed : ∀ a ∈ visited, ∀ kid, scene.SyntaxLeads a kid → ∃ b ∈ visited, scene.SameKey b kid

namespace Visits

variable {scene : Scene} {visited : List SyntaxRef}

/-- No node is visited twice. -/
theorem nodup (h : scene.Visits root visited) : visited.Nodup := by
  refine h.apart.imp_of_mem fun {a b} ha _ hnot heq => hnot ?_
  obtain ⟨key, hkey⟩ := (h.takes a ha).keyed
  exact ⟨key, key, hkey, heq ▸ hkey, Std.ReflCmp.compare_self⟩

/-- Of the nodes of one key, one is visited at most. -/
theorem eq_of_sameKey (h : scene.Visits root visited) {a b : SyntaxRef} (ha : a ∈ visited)
    (hb : b ∈ visited) (hsame : scene.SameKey a b) : a = b := by
  have hsymm : Std.Symm fun a b => ¬ scene.SameKey a b := ⟨fun _ _ hnot h => hnot h.symm⟩
  by_contra hne
  exact h.apart.forall ha hb hne hsame

/-- If different nodes have different keys, all nodes that are reached are visited. -/
theorem mem_of_syntaxReaches (h : scene.Visits root visited) (hkeys : scene.KeysApart root)
    {n : SyntaxRef} (hn : scene.SyntaxReaches root n) : n ∈ visited := by
  induction hn with
  | refl =>
    obtain ⟨a, ha, hsame⟩ := h.root
    exact hkeys a root (h.reaches a ha) .refl hsame ▸ ha
  | @tail a kid _ hleads ih =>
    obtain ⟨b, hb, hsame⟩ := h.closed a ih kid hleads
    exact hkeys b kid (h.reaches b hb) ((h.reaches a ih).tail hleads) hsame ▸ hb

/-- And only then. -/
theorem all_iff (h : scene.Visits root visited) :
    (∀ n, scene.SyntaxReaches root n → n ∈ visited) ↔ scene.KeysApart root :=
  ⟨fun hall _ _ ha hb hsame => h.eq_of_sameKey (hall _ ha) (hall _ hb) hsame,
    fun hkeys _ hn => h.mem_of_syntaxReaches hkeys hn⟩

end Visits

/-- A walk that comes to its end has visited the nodes it called. -/
theorem exists_visits {n : Nat} {c : ValueConfig (List Value)}
    (h : scene.nodeWalk n root = .finished c) :
    ∃ visited : List SyntaxRef, c.calls.map Call.node = visited.map .syntaxNode ∧
      scene.Visits root visited := by
  have hexplores := Setting.explores_of_reduce_finished (scene.lists_syntaxNodes root)
    scene.goesOn_nodeSetting ⟨root, .refl, rfl⟩ trivial h
  obtain ⟨visited, hvisited⟩ : c.calls.map Call.node ∈ Set.range (List.map Value.syntaxNode) := by
    rw [Set.range_list_map]
    intro v hv
    obtain ⟨m, -, hm⟩ := hexplores.isNode v hv
    exact ⟨m, hm⟩
  rw [← hvisited] at hexplores
  have hreaches : ∀ m ∈ visited, scene.SyntaxReaches root m := fun m hm => by
    obtain ⟨m', hm', heq⟩ := hexplores.isNode _ (List.mem_map_of_mem hm)
    cases heq
    exact hm'
  refine ⟨visited, hvisited.symm, hreaches, fun m hm => ?_, List.pairwise_map.1 hexplores.apart,
    ?_, fun a ha kid hleads => ?_⟩
  · obtain ⟨s, memory, pulls, left, -, hlookup⟩ := hexplores.listed _ (List.mem_map_of_mem hm)
    obtain ⟨hbelow, kids, hkids, -⟩ := scene.of_perform_children_syntaxNode hlookup
    exact ⟨hexplores.keyed _ (List.mem_map_of_mem hm), hbelow, kids, hkids⟩
  · obtain ⟨a, ha, hsame⟩ := hexplores.root
    obtain ⟨m, hm, rfl⟩ := List.mem_map.1 ha
    exact ⟨m, hm, hsame⟩
  · obtain ⟨kids, hkids, hkid⟩ := hleads
    rw [← scene.syntaxKids_of_ok hkids] at hkid
    obtain ⟨b, hb, hsame⟩ := hexplores.closed _ (List.mem_map_of_mem ha) _ hkid
    obtain ⟨m, hm, rfl⟩ := List.mem_map.1 hb
    exact ⟨m, hm, hsame⟩

/-! ## §3 Counters -/

/-- Whoever counts comes to this: the tally of the classes of the nodes visited, or a report. -/
structure ComesTo (root : SyntaxRef) (enough : Nat) (result : Except ErrorReport Tally) : Prop where
  counted_eq : ∀ next, Tally.Counts next → ∀ listener budget, enough ≤ budget →
    scene.counted next listener budget root = result
  visits : ∀ t, result = .ok t → ∃ visited : List SyntaxRef, scene.Visits root visited ∧
    t = Tally.ofClasses (visited.map (·.cls)) ∧
    ∀ next, Tally.Counts next → ∀ listener budget, enough ≤ budget → ∃ c,
      scene.tally ⟨.standard, .inForce none none, budget⟩ next listener (.syntaxNode root) =
        .finished c ∧
      c.calls.map Call.node = visited.map .syntaxNode ∧ c.evaluations = visited.length

/-- From some budget on, every counter calls these nodes and ends in the same way. -/
theorem exists_ending (root : SyntaxRef) :
    ∃ (enough : Nat) (nodes : List Value) (ending : Except ValueFailure ValueState),
      (∀ s, ending = .ok s → ∃ visited : List SyntaxRef,
        nodes = visited.map .syntaxNode ∧ scene.Visits root visited) ∧
      ∀ next, Tally.Counts next → ∀ listener budget, enough ≤ budget →
        (scene.tally ⟨.standard, .inForce none none, budget⟩ next listener
            (.syntaxNode root)).config.calls.map Call.node = nodes ∧
        (scene.tally ⟨.standard, .inForce none none, budget⟩ next listener
            (.syntaxNode root)).result? = some (ending.map fun s =>
              (Tally.ofClasses (nodes.map Value.className), s, nodes.length)) := by
  obtain ⟨n, hended⟩ := scene.exists_nodeWalk_ended root
  obtain ⟨nodes, ending, hnodes, hresult⟩ := Setting.exists_result?_listing
    (show (scene.nodeSetting.folding none Setting.listed).reduce n (.syntaxNode root) (.plain .none)
      [] (Memory.start false) .nothing = scene.nodeWalk n root from rfl) hended
  refine ⟨n, nodes, ending, ?_, fun next hnext listener budget hle => ?_⟩
  · rintro s rfl
    obtain ⟨c, hc, -⟩ := Outcome.exists_finished hresult
    obtain ⟨visited, hvisited, hvisits⟩ := scene.exists_visits hc
    rw [hc] at hnodes
    exact ⟨visited, hnodes.symm.trans hvisited, hvisits⟩
  · obtain ⟨hcalls, hcounted⟩ := scene.tally_of_nodeWalk hnext listener budget root
    rw [show scene.nodeWalk budget root = scene.nodeWalk n root from Setting.run_of_le _ hle hended]
      at hcalls hcounted
    refine ⟨hcalls.trans hnodes, hcounted.trans ?_⟩
    rw [hresult]
    cases ending <;> rfl

/-- So they come to one result. -/
theorem exists_comesTo (root : SyntaxRef) : ∃ result enough, scene.ComesTo root enough result := by
  obtain ⟨n, nodes, ending, hvisits, hcounters⟩ := scene.exists_ending root
  cases ending with
  | error failure =>
    refine ⟨.error (scene.report (scene.regime (.inForce none none)) failure), n, ?_, ?_⟩
    · intro next hnext listener budget hle
      rw [counted, collected_eq, (hcounters next hnext listener budget hle).2]
      rfl
    · rintro t ⟨⟩
  | ok s =>
    obtain ⟨visited, rfl, hvisited⟩ := hvisits s rfl
    have hclasses : (visited.map Value.syntaxNode).map Value.className = visited.map (·.cls) := by
      rw [List.map_map]
      rfl
    refine ⟨.ok (Tally.ofClasses (visited.map (·.cls))), n, ?_, ?_⟩
    · intro next hnext listener budget hle
      rw [counted, collected_eq, (hcounters next hnext listener budget hle).2, hclasses]
      rfl
    · rintro t ⟨⟩
      refine ⟨visited, hvisited, rfl, fun next hnext listener budget hle => ?_⟩
      obtain ⟨hcalls, hresult⟩ := hcounters next hnext listener budget hle
      obtain ⟨c, hc, hcount⟩ := Outcome.exists_finished hresult
      rw [hc] at hcalls
      exact ⟨c, hc, hcalls, by rw [hcount, List.length_map]⟩

variable {scene} {enough : Nat} {result : Except ErrorReport Tally}

/-- The result is a tally if every node that is reached can be taken. -/
theorem ComesTo.exists_ok (h : scene.ComesTo root enough result)
    (htakes : ∀ n, scene.SyntaxReaches root n → scene.Takes n) : ∃ t, result = .ok t := by
  have hgoes : (countClasses Tally.raise).GoesOn :=
    Evaluator.goesOn_ofFold fun node t memory => ⟨t.raise node.className, memory, rfl⟩
  obtain ⟨keys, hkeys⟩ := scene.exists_keys root
  obtain ⟨n, c, hfinished⟩ := Setting.exists_reduce_finished
    (g := scene.setting .standard Policy.standard.limits (countClasses Tally.raise) none)
    (scene.lists_syntaxNodes root) (scene.total_syntaxNodes htakes hgoes rfl) hgoes.keepsSeen keys
    hkeys ⟨root, .refl, rfl⟩ trivial .empty (Memory.start false) Heard.nothing
  have htally : scene.counted Tally.raise none (max n enough) root = .ok c.value := by
    have hcounted : scene.tally ⟨.standard, .inForce none none, max n enough⟩ Tally.raise none
        (.syntaxNode root) = .finished c := hfinished _ (Nat.le_max_left ..)
    rw [counted, hcounted]
    rfl
  exact ⟨c.value, by
    rw [← htally, h.counted_eq _ Tally.counts_raise none _ (Nat.le_max_right ..)]⟩

end GraphFold.Scene

namespace GraphFold

/-- The scene in which the census finds the nodes of a source. -/
def Census.sceneOf (nodes : Array SyntaxEntry) : Scene :=
  { Scene.empty with modules := (∅ : Std.HashMap String _).insert moduleName nodes }

/-- The census counts by rebuilding its tally. -/
theorem Census.survey_eq {nodes : Array SyntaxEntry} {root : SyntaxRef}
    (hroot : (sceneOf nodes).read (.entry moduleName 0) = .ok (.syntaxNode root)) (verbose : Bool)
    (budget : Nat) :
    survey nodes .standard verbose budget =
      .ok ((sceneOf nodes).tally ⟨.standard, .inForce none none, budget⟩ Tally.rebuild
        (if verbose then some ListenerScript.log.listener else none) (.syntaxNode root)) := by
  unfold sceneOf at hroot
  unfold survey
  simp only [hroot]
  rfl

/-- The two counters of syntax classes agree, entry for entry and in the same order, or fail over
the same error. In the tally, every node visited counts once, under its class, the classes stand in
the order of the first visits, and the counts add up to the number of visits. All nodes visited are
reached from the root and can be taken, and all nodes that are reached are visited exactly if
different ones have different keys. There is a tally if every one of them can be taken. -/
theorem Scene.counters_agree (scene : Scene) (root : SyntaxRef) :
    ∃ (result : Except ErrorReport Tally) (enough : Nat),
      (∀ listener budget, enough ≤ budget →
        scene.counted Tally.raise none budget root = result ∧
        scene.counted Tally.rebuild listener budget root = result) ∧
      (∀ nodes verbose budget, scene = Census.sceneOf nodes →
        scene.read (.entry Census.moduleName 0) = .ok (.syntaxNode root) → enough ≤ budget →
        ∃ outcome, Census.survey nodes .standard verbose budget = .ok outcome ∧
          scene.collected ⟨.standard, .inForce none none, budget⟩ outcome = result) ∧
      (∀ t, result = .ok t → ∃ visited : List SyntaxRef,
        (∀ budget, enough ≤ budget → ∃ c,
          scene.tally ⟨.standard, .inForce none none, budget⟩ Tally.raise none
            (.syntaxNode root) = .finished c ∧
          c.calls.map Call.node = visited.map .syntaxNode ∧ c.evaluations = visited.length) ∧
        visited.Nodup ∧ (∀ n ∈ visited, scene.SyntaxReaches root n ∧ scene.Takes n) ∧
        t.keys = Tally.firstMeetings (visited.map (·.cls)) ∧
        (∀ cls, t.count cls = visited.countP fun n => n.cls = cls) ∧
        t.total = visited.length ∧
        ((∀ n, scene.SyntaxReaches root n → n ∈ visited) ↔ scene.KeysApart root)) ∧
      ((∀ n, scene.SyntaxReaches root n → scene.Takes n) → ∃ t, result = .ok t) := by
  obtain ⟨result, enough, h⟩ := scene.exists_comesTo root
  refine ⟨result, enough, ?_, ?_, ?_, h.exists_ok⟩
  · intro listener budget hle
    exact ⟨h.counted_eq _ Tally.counts_raise none budget hle,
      h.counted_eq _ Tally.counts_rebuild listener budget hle⟩
  · rintro nodes verbose budget rfl hroot hle
    exact ⟨_, Census.survey_eq hroot verbose budget,
      h.counted_eq _ Tally.counts_rebuild _ budget hle⟩
  · intro t ht
    obtain ⟨visited, hvisits, rfl, hfinished⟩ := h.visits t ht
    refine ⟨visited, fun budget hle => hfinished _ Tally.counts_raise none budget hle, hvisits.nodup,
      fun n hn => ⟨hvisits.reaches n hn, hvisits.takes n hn⟩, Tally.keys_ofClasses _,
      Tally.count_ofClasses_map _ _, ?_, hvisits.all_iff⟩
    rw [Tally.total_ofClasses, List.length_map]

/-! ## §4 Pairs -/

namespace Scene

/-- A module that holds the nodes `a` and `b`. -/
def pairModule : SyntaxEntry := ⟨"Module", [("body", .list [.ref "a", .ref "b"])]⟩

/-- The module, and its nodes, which have one entry. -/
def pairScene (entry : SyntaxEntry) : Scene :=
  ((empty.addSyntax "m" pairModule).addSyntax "a" entry).addSyntax "b" entry

/-- The module as a node. -/
def pairRoot : SyntaxRef := pairModule.toRef (.listed "m")

/-- The two nodes. -/
def pairNodes (entry : SyntaxEntry) : List SyntaxRef :=
  [entry.toRef (.listed "a"), entry.toRef (.listed "b")]

section Pairs

variable {entry : SyntaxEntry} {node : SyntaxRef}

theorem eq_or_eq_of_mem_pairNodes (hnode : node ∈ pairNodes entry) :
    node = entry.toRef (.listed "a") ∨ node = entry.toRef (.listed "b") := by
  simpa [pairNodes] using hnode

theorem cls_of_mem_pairNodes (hnode : node ∈ pairNodes entry) : node.cls = entry.cls := by
  obtain rfl | rfl := eq_or_eq_of_mem_pairNodes hnode <;> rfl

theorem entry_pairRoot : syntaxEntry? (pairScene entry) pairRoot = some pairModule := by
  change (pairScene entry).listed["m"]? = _
  simp only [pairScene, addSyntax, Std.HashMap.getElem?_insert]
  rfl

theorem entry_pairNodes (hnode : node ∈ pairNodes entry) :
    syntaxEntry? (pairScene entry) node = some entry := by
  obtain rfl | rfl := eq_or_eq_of_mem_pairNodes hnode
  · change (pairScene entry).listed["a"]? = _
    simp only [pairScene, addSyntax, Std.HashMap.getElem?_insert]
    rfl
  · change (pairScene entry).listed["b"]? = _
    simp only [pairScene, addSyntax, Std.HashMap.getElem?_insert]
    rfl

theorem lookup_pairScene {id : String} {e : SyntaxEntry}
    (h : Scene.syntaxEntry? (pairScene entry) (e.toRef (.listed id)) = some e) :
    (pairScene entry).lookup id = .ok (.syntaxNode (e.toRef (.listed id))) := by
  have hlisted : (pairScene entry).listed[id]? = some e := h
  have hnone : (pairScene entry).objects[id]? = none := by
    simp [pairScene, addSyntax, empty]
  rw [lookup, hnone, hlisted]

theorem syntaxChildren_pairRoot :
    (pairScene entry).syntaxChildren pairRoot = .ok ((pairNodes entry).map .syntaxNode) := by
  have ha : (pairScene entry).lookup "a" = _ :=
    lookup_pairScene (entry_pairNodes List.mem_cons_self)
  have hb : (pairScene entry).lookup "b" = _ :=
    lookup_pairScene (entry_pairNodes (List.mem_cons_of_mem _ List.mem_cons_self))
  have hread : read.readAll (pairScene entry) [.list [.ref "a", .ref "b"]] =
      .ok [.list ((pairNodes entry).map .syntaxNode)] := by
    simp only [read.readAll, read, ha, hb]
    rfl
  unfold syntaxChildren
  rw [entry_pairRoot]
  exact congrArg (Except.map (List.flatMap syntaxChildren.nodesIn)) hread

theorem not_hasOwnKey_pairRoot : ¬ (pairScene entry).HasOwnKey pairRoot := by
  rintro ⟨e, description, hentry, hkey⟩
  rw [entry_pairRoot] at hentry
  cases hentry
  cases hkey

theorem takes_pairRoot : (pairScene entry).Takes pairRoot :=
  ⟨⟨_, identity_syntaxNode _ not_hasOwnKey_pairRoot⟩, by decide, _, syntaxChildren_pairRoot⟩

/-- The module and its nodes are reached, and nothing else if the nodes lead back to the module at
most. -/
theorem syntaxReaches_pairRoot_iff
    (hback : ∀ a ∈ pairNodes entry, ∀ kid, (pairScene entry).SyntaxLeads a kid → kid = pairRoot) :
    (pairScene entry).SyntaxReaches pairRoot node ↔ node = pairRoot ∨ node ∈ pairNodes entry := by
  constructor
  · intro h
    induction h with
    | refl => exact .inl rfl
    | @tail a kid _ hleads ih =>
      obtain rfl | ha := ih
      · obtain ⟨kids, hkids, hkid⟩ := hleads
        rw [syntaxChildren_pairRoot] at hkids
        cases hkids
        obtain ⟨b, hb, heq⟩ := List.mem_map.1 hkid
        cases heq
        exact .inr hb
      · exact .inl (hback a ha kid hleads)
  · rintro (rfl | hmem)
    · exact .refl
    · exact .single ⟨_, syntaxChildren_pairRoot, List.mem_map_of_mem hmem⟩

end Pairs

/-- A node that holds the module it is in. -/
def loopingExpr : SyntaxEntry := ⟨"Expr", [("value", .ref "m")]⟩

section Looping

variable {node : SyntaxRef}

theorem syntaxChildren_looping (hnode : node ∈ pairNodes loopingExpr) :
    (pairScene loopingExpr).syntaxChildren node = .ok [.syntaxNode pairRoot] := by
  have hm : (pairScene loopingExpr).lookup "m" = _ := lookup_pairScene entry_pairRoot
  have hread : read.readAll (pairScene loopingExpr) [.ref "m"] = .ok [.syntaxNode pairRoot] := by
    simp only [read.readAll, read, hm]
    rfl
  unfold syntaxChildren
  rw [entry_pairNodes hnode]
  exact congrArg (Except.map (List.flatMap syntaxChildren.nodesIn)) hread

theorem syntaxReaches_looping_iff : (pairScene loopingExpr).SyntaxReaches pairRoot node ↔
    node = pairRoot ∨ node ∈ pairNodes loopingExpr := by
  refine syntaxReaches_pairRoot_iff fun a ha kid hleads => ?_
  obtain ⟨kids, hkids, hkid⟩ := hleads
  rw [syntaxChildren_looping ha] at hkids
  cases hkids
  simpa using hkid

theorem not_hasOwnKey_looping (h : (pairScene loopingExpr).SyntaxReaches pairRoot node) :
    ¬ (pairScene loopingExpr).HasOwnKey node := by
  obtain rfl | hnode := syntaxReaches_looping_iff.1 h
  · exact not_hasOwnKey_pairRoot
  · rintro ⟨e, description, hentry, hkey⟩
    rw [entry_pairNodes hnode] at hentry
    cases hentry
    cases hkey

theorem takes_looping (h : (pairScene loopingExpr).SyntaxReaches pairRoot node) :
    (pairScene loopingExpr).Takes node := by
  obtain rfl | hnode := syntaxReaches_looping_iff.1 h
  · exact takes_pairRoot
  · refine ⟨⟨_, identity_syntaxNode _ (not_hasOwnKey_looping h)⟩, ?_, _,
      syntaxChildren_looping hnode⟩
    rw [cls_of_mem_pairNodes hnode]
    decide

/-- Both counters count the module once, though both of its nodes lead back to it. -/
theorem counters_agree_looping : ∃ t enough, (∀ budget, enough ≤ budget →
      (pairScene loopingExpr).counted Tally.raise none budget pairRoot = .ok t ∧
      (pairScene loopingExpr).counted Tally.rebuild none budget pairRoot = .ok t) ∧
    t.count "Module" = 1 ∧ t.count "Expr" = 2 := by
  obtain ⟨result, enough, hcounters, -, hok, hexists⟩ :=
    (pairScene loopingExpr).counters_agree pairRoot
  obtain ⟨t, rfl⟩ := hexists fun n hn => takes_looping hn
  obtain ⟨visited, -, hnodup, hreached, -, hcount, -, hall⟩ := hok t rfl
  have hmem := hall.2 (keysApart_of_unkeyed _ fun n hn => not_hasOwnKey_looping hn)
  have hperm : visited.Perm (pairRoot :: pairNodes loopingExpr) := by
    refine (List.perm_ext_iff_of_nodup hnodup (by decide)).2 fun n => ?_
    rw [List.mem_cons, ← syntaxReaches_looping_iff]
    exact ⟨fun hn => (hreached n hn).1, hmem n⟩
  refine ⟨t, enough, fun budget hle => hcounters none budget hle, ?_, ?_⟩
  · rw [hcount, hperm.countP_eq]
    decide
  · rw [hcount, hperm.countP_eq]
    decide

end Looping

/-- A node that does nothing and has the key 1. -/
def keyedPass : SyntaxEntry := ⟨"Pass", [(SyntaxEntry.keyAttribute, .value (.int 1))]⟩

section Twins

variable {node : SyntaxRef}

theorem syntaxChildren_twin (hnode : node ∈ pairNodes keyedPass) :
    (pairScene keyedPass).syntaxChildren node = .ok [] := by
  unfold syntaxChildren
  rw [entry_pairNodes hnode]
  rfl

theorem identity_twin (hnode : node ∈ pairNodes keyedPass) :
    (pairScene keyedPass).identity (.syntaxNode node) = .ok (.value (.int 1)) :=
  identity_syntaxNode_of_value _ (entry_pairNodes hnode) rfl rfl

theorem syntaxReaches_twin_iff : (pairScene keyedPass).SyntaxReaches pairRoot node ↔
    node = pairRoot ∨ node ∈ pairNodes keyedPass := by
  refine syntaxReaches_pairRoot_iff fun a ha kid hleads => ?_
  obtain ⟨kids, hkids, hkid⟩ := hleads
  rw [syntaxChildren_twin ha] at hkids
  cases hkids
  cases hkid

theorem takes_twin (h : (pairScene keyedPass).SyntaxReaches pairRoot node) :
    (pairScene keyedPass).Takes node := by
  obtain rfl | hnode := syntaxReaches_twin_iff.1 h
  · exact takes_pairRoot
  · refine ⟨⟨_, identity_twin hnode⟩, ?_, _, syntaxChildren_twin hnode⟩
    rw [cls_of_mem_pairNodes hnode]
    decide

theorem not_sameKey_twin (hnode : node ∈ pairNodes keyedPass) :
    ¬ (pairScene keyedPass).SameKey node pairRoot := by
  rintro ⟨k, l, hk, hl, heq⟩
  rw [identity_twin hnode] at hk
  rw [identity_syntaxNode _ not_hasOwnKey_pairRoot] at hl
  cases hk
  cases hl
  cases heq

theorem sameKey_twins {other : SyntaxRef} (hnode : node ∈ pairNodes keyedPass)
    (hother : other ∈ pairNodes keyedPass) : (pairScene keyedPass).SameKey node other :=
  ⟨_, _, identity_twin hnode, identity_twin hother, Std.ReflCmp.compare_self⟩

/-- One of the twins is visited. -/
theorem exists_twin_mem {visited : List SyntaxRef}
    (h : (pairScene keyedPass).Visits pairRoot visited) :
    ∃ twin ∈ visited, twin ∈ pairNodes keyedPass := by
  have hroot : pairRoot ∈ visited := by
    obtain ⟨a, ha, hsame⟩ := h.root
    obtain rfl | htwin := syntaxReaches_twin_iff.1 (h.reaches a ha)
    · exact ha
    · exact absurd hsame (not_sameKey_twin htwin)
  have hfirst : keyedPass.toRef (.listed "a") ∈ pairNodes keyedPass := List.mem_cons_self
  obtain ⟨b, hb, hsame⟩ := h.closed pairRoot hroot _
    ⟨_, syntaxChildren_pairRoot, List.mem_map_of_mem hfirst⟩
  obtain rfl | htwin := syntaxReaches_twin_iff.1 (h.reaches b hb)
  · exact absurd hsame.symm (not_sameKey_twin hfirst)
  · exact ⟨b, hb, htwin⟩

/-- A class need not count as often as there are nodes of it that are reached: these two nodes of
one key count once. -/
theorem counted_twins : (pairNodes keyedPass).Nodup ∧
    (∀ node ∈ pairNodes keyedPass,
      (pairScene keyedPass).SyntaxReaches pairRoot node ∧ node.cls = "Pass") ∧
    ∃ t enough, (∀ budget, enough ≤ budget →
      (pairScene keyedPass).counted Tally.raise none budget pairRoot = .ok t) ∧
      t.count "Pass" = 1 := by
  refine ⟨by decide, fun node hnode =>
    ⟨syntaxReaches_twin_iff.2 (.inr hnode), cls_of_mem_pairNodes hnode⟩, ?_⟩
  obtain ⟨result, enough, hcomes⟩ := (pairScene keyedPass).exists_comesTo pairRoot
  obtain ⟨t, rfl⟩ := hcomes.exists_ok fun node hnode => takes_twin hnode
  refine ⟨t, enough, fun budget hle => hcomes.counted_eq _ Tally.counts_raise none budget hle, ?_⟩
  obtain ⟨visited, hvisits, rfl, -⟩ := hcomes.visits t rfl
  obtain ⟨twin, hmem, htwin⟩ := exists_twin_mem hvisits
  have hpass : ∀ n ∈ visited, n.cls = "Pass" ↔ n = twin := by
    intro n hn
    obtain rfl | hnode := syntaxReaches_twin_iff.1 (hvisits.reaches n hn)
    · refine ⟨fun h => absurd h (by decide), fun h => ?_⟩
      rw [h]
      exact cls_of_mem_pairNodes htwin
    · exact ⟨fun _ => hvisits.eq_of_sameKey hn hmem (sameKey_twins hnode htwin),
        fun _ => cls_of_mem_pairNodes hnode⟩
  calc (Tally.ofClasses (visited.map (·.cls))).count "Pass"
    _ = visited.countP fun n => n.cls = "Pass" := Tally.count_ofClasses_map _ _ _
    _ = visited.count twin := List.countP_congr fun n hn => by simp [hpass n hn]
    _ = 1 := List.count_eq_one_of_mem hvisits.nodup hmem

end Twins

end Scene

end GraphFold
