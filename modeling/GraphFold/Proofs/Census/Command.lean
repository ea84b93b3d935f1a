/-
GraphFold.Proofs.Census.Command — what the census prints for a parsed module.

The walk of the census goes on everywhere, so without a limit it arrives at
every node of the module once, and its tally has every class with the number of
its nodes. Under a limit it does the same, unless some node has more ancestors
where the walk arrives at it first. Then it is given up there, one level below
the limit, and the command says so and ends with status 1. Whether records are
shown makes a difference to the walk's listener only, and so to nothing that is
printed after the arguments.

  §1 Listening — `Census.shown_runWith`.
  §2 Walks     — the walk of the census, with and without a limit.
  §3 Fields    — the recursive fields of the example schema.
  §4 Reports   — what is printed when the walk ends, or is given up.
  §5 Command   — `Census.run_parsed`.
-/
import GraphFold.Proofs.Census.Ranking
import GraphFold.Proofs.SyntaxTree.Modules

namespace GraphFold

/-! ## §1 Listening -/

/-- Who listens to a counter has no part in what it comes to. -/
theorem Scene.result?_tally (scene : Scene) (p : Policy) (budget : Nat)
    (next : Tally → String → Tally) (listener : Option (Listener Value Heard)) (root : Value) :
    (scene.tally ⟨.standard, .ok p, budget⟩ next listener root).result? =
      (scene.tally ⟨.standard, .ok p, budget⟩ next none root).result? := by
  have hsilent := Setting.silence_reduce Heard.nothing
    (scene.setting .standard p.limits (countClasses next) listener) budget root (.plain .none)
    .empty (Memory.start false) .nothing
  exact (Outcome.result?_silence Heard.nothing _).symm.trans (congrArg Outcome.result? hsilent)

/-- An analysis that returns something on a budget returns it on every larger one. -/
theorem Scene.analyse_of_le (scene : Scene) (p : Policy) {collect : FoldOver (List String)}
    {name root : String} {schema : Schema} {n m : Nat} {found : List String} (hle : n ≤ m)
    (h : scene.analyse ⟨.standard, .ok p, n⟩ collect name schema root = .ok found) :
    scene.analyse ⟨.standard, .ok p, m⟩ collect name schema root = .ok found := by
  unfold analyse at h ⊢
  cases hroot : schema.resolve root with
  | error e =>
    rw [hroot] at h
    cases h
  | ok type =>
    rw [hroot] at h
    dsimp only [regime] at h ⊢
    rw [reduceUnder_regime, reduce, Setting.reduce] at h ⊢
    cases hend : (scene.setting .standard p.limits collect none).run n
        (.start type (.schema name schema) [] (Memory.start false) Heard.nothing) with
    | finished c =>
      rw [hend] at h
      rw [Setting.run_of_le _ hle (hend ▸ Outcome.ended_finished c), hend]
      exact h
    | failed f c | unfinished c =>
      rw [hend] at h
      cases h

namespace Census

variable {directory : Directory} {nodes : Array SyntaxEntry} {root : SyntaxRef} {budget : Nat}
  {o : Options}

/-- What is printed after the arguments, and how the command ends. -/
def Result.shown (r : Result) : List String × Ending := (r.lines.tail, r.ending)

/-- The command prints these lines and ends with this status. -/
def Result.Gives (r : Result) (lines : List String) (status : Nat) : Prop :=
  r.lines = lines ∧ r.ending = .status status

theorem survey_result? (p : Policy) (verbose : Bool) :
    (survey nodes p verbose budget).map Outcome.result? =
      (survey nodes p false budget).map Outcome.result? := by
  unfold survey
  dsimp only
  split
  · rfl
  · exact congrArg Except.ok (Scene.result?_tally _ p budget _ _ _)

/-- What is shown of what a walk comes to. -/
def shownOf (top : Int) (p : Policy) (budget : Nat) :
    Option (Except ValueFailure (Tally × ValueState × Nat)) → List String × Ending
  | some (.ok (tally, _, _)) =>
    let counts := countsLine (Index.upTo tally.ranked top)
    match exampleFields budget with
    | .ok fields => ([counts, fieldsLine fields], .status 0)
    | .error e => ([counts], .error e)
  | some (.error failure) =>
    let e := Scene.empty.report p.regime failure
    match e.abort? with
    | some _ => ([abortLine e.message], .status 1)
    | none => ([], .error e)
  | none => ([], .error (.silent .runtime))

theorem shown_report (p : Policy) (outcome : ValueOutcome Tally) :
    (report o p budget outcome).shown = shownOf o.top p budget outcome.result? := by
  cases outcome with
  | unfinished c => rfl
  | finished c =>
    unfold report shownOf
    dsimp only [Outcome.result?]
    cases exampleFields budget <;> rfl
  | failed failure c =>
    unfold report shownOf
    dsimp only [Outcome.result?]
    cases (Scene.empty.report p.regime failure).abort? <;> rfl

/-- Whether records are shown has no part in what else is. -/
theorem shown_runWith (verbose : Bool) :
    (runWith directory budget { o with verbose := verbose }).shown =
      (runWith directory budget o).shown := by
  have hsurvey : ∀ (p : Policy) (nodes : Array SyntaxEntry),
      (survey nodes p verbose budget).map Outcome.result? =
        (survey nodes p o.verbose budget).map Outcome.result? := fun p nodes =>
    (survey_result? p verbose).trans (survey_result? p o.verbose).symm
  unfold runWith
  dsimp only
  cases Policy.make? (o.maxDepth.map fun limit => .ok (.int limit)) Policy.standard.checked
    Policy.standard.description with
  | error e => simp only [Result.shown, List.tail_cons]
  | ok p =>
    cases directory (SourcePath.ofText o.source) with
    | error e => simp only [Result.shown, List.tail_cons]
    | ok nodes =>
      have hsame := hsurvey p nodes
      dsimp only
      generalize survey nodes p verbose budget = a at hsame ⊢
      generalize survey nodes p o.verbose budget = b at hsame ⊢
      cases a with
      | error e =>
        cases b with
        | error e' =>
          obtain rfl : e = e' := Except.error.inj hsame
          simp only [Result.shown, List.tail_cons]
        | ok b => cases hsame
      | ok a =>
        cases b with
        | error e => cases hsame
        | ok b =>
          have hresult : a.result? = b.result? := Except.ok.inj hsame
          rw [shown_report, shown_report, hresult]

/-- The arguments come first. -/
theorem lines_runWith : (runWith directory budget o).lines =
    configLine o :: (runWith directory budget o).shown.1 := by
  unfold runWith report
  dsimp only
  repeat' split
  all_goals simp only [Result.shown, List.tail_cons]

/-! ## §2 Walks -/

/-- The policy with a limit that was given, and with whatever else the standard one has. -/
def policyUnder (maxDepth : Option Int) : Policy :=
  { Policy.standard with maxDepth := maxDepth.map .int }

theorem make?_policyUnder {maxDepth : Option Int} (h : ∀ d, maxDepth = some d → 0 ≤ d) :
    Policy.make? (maxDepth.map fun limit => .ok (.int limit)) Policy.standard.checked
      Policy.standard.description = .ok (policyUnder maxDepth) := by
  cases maxDepth with
  | none => rfl
  | some d =>
    have hfloor : ¬ (Index.Numeral.int d).floor < 0 := Int.not_lt.2 (h d rfl)
    simp only [Option.map_some, Policy.make?, if_neg hfloor]
    rfl

/-- The walk of the census to which nobody listens. -/
def countingSetting (nodes : Array SyntaxEntry) :
    Setting Value Key Context Tally Value Fault Memory Heard :=
  (sceneOf nodes).setting .standard Policy.standard.limits (countClasses Tally.rebuild) none

/-- What it comes to from a root, under a limit if there is one. -/
def counting (nodes : Array SyntaxEntry) (maxDepth : Option Int) (budget : Nat)
    (root : SyntaxRef) : ValueOutcome Tally :=
  ((countingSetting nodes).withMaxDepth maxDepth).reduce budget (.syntaxNode root) (.plain .none)
    .empty (Memory.start false) .nothing

theorem survey_policyUnder
    (hroot : (sceneOf nodes).read (.entry moduleName 0) = .ok (.syntaxNode root))
    (maxDepth : Option Int) : survey nodes (policyUnder maxDepth) false budget =
      .ok (counting nodes maxDepth budget root) := by
  unfold sceneOf at hroot
  unfold survey
  simp only [hroot]
  cases maxDepth <;> rfl

/-- A walk without a limit arrives at every node once, and its tally is that of their classes. -/
theorem exists_counting (h : ParsedModule nodes) (hroot : IsModuleNode nodes root) :
    ∃ arrivals enough c, Arrivals (sceneOf nodes).nodesBelow [] [] [root] arrivals ∧
      (∀ budget, enough ≤ budget → counting nodes none budget root = .finished c) ∧
      c.visited = arrivals.map (fun v => (Value.syntaxNode v.1, v.2.map Value.syntaxNode)) ∧
      c.value = Tally.ofClasses ((arrivals.map Prod.fst).map (·.cls)) := by
  have htakes : ∀ n, (sceneOf nodes).SyntaxReaches root n → (sceneOf nodes).Takes n :=
    fun n hn => h.takes hroot hn
  obtain ⟨arrivals, harrivals, hwalks⟩ :=
    (sceneOf nodes).exists_arrivals htakes fun n _ => h.not_hasOwnKey n
  have hgoes : Evaluator.GoesOn (countClasses Tally.rebuild) :=
    Evaluator.goesOn_ofFold fun node tally memory => ⟨tally.rebuild node.className, memory, rfl⟩
  obtain ⟨enough, c, hend, hvisited⟩ := hwalks Policy.standard.limits (countClasses Tally.rebuild)
    none rfl hgoes (.plain .none) .empty (Memory.start false) .nothing
  -- The same walk is one of the counters, which come to the tally of the nodes they call.
  obtain ⟨result, enough', hcomes⟩ := (sceneOf nodes).exists_comesTo root
  obtain ⟨t, rfl⟩ := hcomes.exists_ok htakes
  obtain ⟨visited, -, rfl, hcounter⟩ := hcomes.visits t rfl
  obtain ⟨c', hc', hcalls, -⟩ := hcounter Tally.rebuild Tally.counts_rebuild none
    (max enough enough') (Nat.le_max_right ..)
  have hsame : c' = c := by
    have hthere := hend (max enough enough') (Nat.le_max_left ..)
    exact Outcome.finished.inj (hc'.symm.trans hthere)
  subst hsame
  have hnodes : visited = arrivals.map Prod.fst := by
    have hmapped : visited.map Value.syntaxNode = (arrivals.map Prod.fst).map .syntaxNode := by
      rw [← hcalls, List.map_map, ← show c'.visited.map Prod.fst = c'.calls.map Call.node from
        List.map_map .., hvisited, List.map_map]
      rfl
    exact List.map_injective_iff.2 (fun a b hab => Value.syntaxNode.inj hab) hmapped
  refine ⟨arrivals, enough, c', harrivals, hend, hvisited, ?_⟩
  have hcounted := hcomes.counted_eq Tally.rebuild Tally.counts_rebuild none
    (max enough enough') (Nat.le_max_right ..)
  rw [Scene.counted, hc'] at hcounted
  rw [← hnodes]
  exact Except.ok.inj hcounted

/-- Under a limit it is given up if a node has more ancestors where it is arrived at first, and
comes to the same if none has. -/
theorem counting_limited {arrivals : List (SyntaxRef × List SyntaxRef)} {enough : Nat}
    {c : ValueConfig Tally} (hend : counting nodes none enough root = .finished c)
    (hvisited : c.visited = arrivals.map fun v => (.syntaxNode v.1, v.2.map .syntaxNode)) (d : Nat)
    (hle : enough ≤ budget) :
    ((∃ v ∈ arrivals, d < v.2.length) → ∃ node path last, path.length = d + 1 ∧
      counting nodes (some d) budget root = .failed (.tooDeep d node path) last) ∧
    ((∀ v ∈ arrivals, v.2.length ≤ d) → counting nodes (some d) budget root = .finished c) := by
  obtain ⟨hdeep, hshallow⟩ := Setting.limited_of_finished (d := d) hend
  constructor
  · rintro ⟨v, hv, hlt⟩
    obtain ⟨node, path, last, hpath, hcut⟩ :=
      hdeep ⟨_, hvisited ▸ List.mem_map_of_mem hv, by simpa using hlt⟩
    exact ⟨node, path, last, hpath, hcut budget hle⟩
  · intro hall
    have hfinished : counting nodes (some d) enough root = .finished c := hshallow fun v hv => by
      obtain ⟨w, hw, rfl⟩ := List.mem_map.1 (hvisited ▸ hv)
      simpa using hall w hw
    have hended : (counting nodes (some d) enough root).Ended := by
      rw [hfinished]
      exact Outcome.ended_finished c
    exact (Setting.run_of_le _ hle hended).trans hfinished

/-! ## §3 Fields -/

/-- The recursive fields of the example schema. -/
theorem exampleFields_eq (h : 100 ≤ budget) :
    exampleFields budget = .ok ["User.manager", "Team.lead"] := by
  have hfirst : exampleFields 100 = .ok ["User.manager", "Team.lead"] := rfl
  unfold exampleFields at hfirst ⊢
  split at hfirst
  · cases hfirst
  · exact Scene.analyse_of_le _ _ h hfirst

/-! ## §4 Reports -/

theorem shownOf_finished (hbudget : 100 ≤ budget) (top : Int) (p : Policy)
    (c : ValueConfig Tally) : shownOf top p budget (Outcome.finished c).result? =
      ([countsLine (if 0 ≤ top then c.value.ranked.take top.toNat
          else c.value.ranked.rdrop top.natAbs),
        fieldsLine ["User.manager", "Team.lead"]], .status 0) := by
  simp only [Outcome.result?, shownOf, exampleFields_eq hbudget, Index.upTo_eq]

theorem shownOf_tooDeep (top : Int) {d : Nat} {node : Value} {path : List Value}
    (hpath : path.length = d + 1) (last : ValueConfig Tally) :
    shownOf top (policyUnder (some d)) budget (Outcome.failed (.tooDeep d node path) last).result? =
      ([abortLine (traversalMessage (d + 1) (tooDeepReason (toString d)))], .status 1) := by
  rw [← hpath]
  rfl

/-! ## §5 Command -/

/-- What is shown for a parsed module is what its walk comes to. -/
theorem shown_eq_shownOf (hfound : directory (SourcePath.ofText o.source) = .ok nodes)
    (hroot : (sceneOf nodes).read (.entry moduleName 0) = .ok (.syntaxNode root))
    (hdepth : ∀ d, o.maxDepth = some d → 0 ≤ d) : (runWith directory budget o).shown =
      shownOf o.top (policyUnder o.maxDepth) budget
        (counting nodes o.maxDepth budget root).result? := by
  rw [← shown_runWith (o := o) false]
  unfold runWith
  simp only [make?_policyUnder hdepth, hfound, survey_policyUnder hroot]
  exact shown_report ..

/-- If this is shown, the command gives these lines. -/
theorem gives_of_shown {lines : List String} {status : Nat}
    (h : (runWith directory budget o).shown = (lines, .status status)) :
    (runWith directory budget o).Gives (configLine o :: lines) status :=
  ⟨by rw [lines_runWith, h], congrArg Prod.snd h⟩

/-- The counts of the nodes that are reached from a root: for each of their classes how many of it
there are, ranked by the count, the greatest first, and by the name. -/
structure IsCensus (scene : Scene) (root : SyntaxRef) (counts : List (String × Nat)) : Prop where
  mem_iff : ∀ cls n, (cls, n) ∈ counts ↔
    0 < n ∧ n = {node | scene.SyntaxReaches root node ∧ node.cls = cls}.ncard
  ranked : counts.Pairwise Tally.Precedes

/-- What the command does with the source of a parsed module, under a limit that is absent or not
below zero. Take the first arrivals of a depth-first search from the root, and the census of the
nodes that are reached. If a limit is given and some node has more ancestors than this where the
search arrives at it first, the command prints, after its arguments, that the walk was given up one
level below the limit, and ends with status 1. Otherwise it prints the census, cut at the end that
was asked for, and the recursive fields, and ends with status 0. Whether records are shown makes no
difference to what it prints after its arguments, nor to how it ends. -/
theorem run_parsed {source : String} (hfound : directory (SourcePath.ofText source) = .ok nodes)
    (hparsed : ParsedModule nodes) :
    ∃ (root : SyntaxRef) (arrivals : List (SyntaxRef × List SyntaxRef))
      (counts : List (String × Nat)) (enough : Nat),
      (sceneOf nodes).read (.entry moduleName 0) = .ok (.syntaxNode root) ∧
      Arrivals (sceneOf nodes).nodesBelow [] [] [root] arrivals ∧
      IsCensus (sceneOf nodes) root counts ∧
      ∀ (o : Options) (arguments : List String), Options.read arguments = .options o →
        o.source = source → (∀ d, o.maxDepth = some d → 0 ≤ d) →
        (∀ budget, enough ≤ budget →
          (∀ d : Nat, o.maxDepth = some (d : Int) → (∃ v ∈ arrivals, d < v.2.length) →
            (run directory budget arguments).Gives
              [configLine o,
                "[census] aborted: " ++ ("traversal failed at depth " ++ toString (d + 1) ++ ": " ++
                  ("maximum depth " ++ toString d ++ " exceeded"))] 1) ∧
          ((∀ d : Nat, o.maxDepth = some (d : Int) → ∀ v ∈ arrivals, v.2.length ≤ d) →
            (run directory budget arguments).Gives
              [configLine o,
                countsLine (if 0 ≤ o.top then counts.take o.top.toNat
                  else counts.rdrop o.top.natAbs),
                fieldsLine ["User.manager", "Team.lead"]] 0)) ∧
        ∀ (budget : Nat) (verbose : Bool) (others : List String),
          Options.read others = .options { o with verbose := verbose } →
          (run directory budget others).lines.tail = (run directory budget arguments).lines.tail ∧
          (run directory budget others).ending = (run directory budget arguments).ending := by
  obtain ⟨root, hroot, hmodule⟩ := hparsed.exists_root
  obtain ⟨arrivals, enough, c, harrivals, hend, hvisited, hvalue⟩ :=
    exists_counting hparsed hmodule
  have hmem : ∀ node, node ∈ arrivals.map Prod.fst ↔
      node ∈ {node | (sceneOf nodes).SyntaxReaches root node} := fun node =>
    (sceneOf nodes).mem_arrivals harrivals
  have hcensus : IsCensus (sceneOf nodes) root c.value.ranked := by
    rw [hvalue]
    exact ⟨fun cls n => Tally.mem_ranked_ofClasses_map harrivals.nodup.1 hmem _,
      Tally.pairwise_ranked _⟩
  refine ⟨root, arrivals, c.value.ranked, max enough 100, hroot, harrivals, hcensus, ?_⟩
  rintro o arguments hread rfl hdepth
  have hrun : ∀ budget, run directory budget arguments = runWith directory budget o :=
    fun budget => by rw [run, hread]
  refine ⟨fun budget hle => ⟨fun d hd hdeep => ?_, fun hshallow => ?_⟩, ?_⟩
  · obtain ⟨node, path, last, hpath, hfailed⟩ :=
      (counting_limited (hend enough (Nat.le_refl _)) hvisited d (le_of_max_le_left hle)).1 hdeep
    rw [hrun]
    refine gives_of_shown ?_
    rw [shown_eq_shownOf hfound hroot hdepth, hd, hfailed]
    exact shownOf_tooDeep o.top hpath last
  · have hfinished : counting nodes o.maxDepth budget root = .finished c := by
      cases hmax : o.maxDepth with
      | none => exact hend budget (le_of_max_le_left hle)
      | some limit =>
        obtain ⟨d, rfl⟩ := Int.eq_ofNat_of_zero_le (hdepth limit hmax)
        exact (counting_limited (hend enough (Nat.le_refl _)) hvisited d
          (le_of_max_le_left hle)).2 (hshallow d hmax)
    rw [hrun]
    refine gives_of_shown ?_
    rw [shown_eq_shownOf hfound hroot hdepth, hfinished]
    exact shownOf_finished (le_of_max_le_right hle) o.top _ c
  · intro budget verbose others hothers
    have hother : run directory budget others =
        runWith directory budget { o with verbose := verbose } := by rw [run, hothers]
    rw [hother, hrun]
    exact Prod.mk.inj (shown_runWith verbose)

section Attribute

/-! The text `a.b` is a name and an attribute of it, with one context for both. The context is met
below the name first, though it is a child of the attribute as well. -/

/-- The entry of the module. -/
def moduleEntry : SyntaxEntry := ⟨"Module", [("body", .list [.entry moduleName 1])]⟩

/-- The entry of its only statement. -/
def statementEntry : SyntaxEntry := ⟨"Expr", [("value", .entry moduleName 2)]⟩

/-- The entry of the attribute. -/
def attributeEntry : SyntaxEntry := ⟨"Attribute",
  [("value", .entry moduleName 3), ("attr", .value (.text "b")), ("ctx", .entry moduleName 4)]⟩

/-- The entry of the name. -/
def nameEntry : SyntaxEntry := ⟨"Name", [("id", .value (.text "a")), ("ctx", .entry moduleName 4)]⟩

/-- The entry of the context. -/
def contextEntry : SyntaxEntry := ⟨"Load", []⟩

/-- The entries of the text. -/
def attributeNodes : Array SyntaxEntry :=
  #[moduleEntry, statementEntry, attributeEntry, nameEntry, contextEntry]

/-- The module as a node. -/
def moduleRef : SyntaxRef := moduleEntry.toRef (.entry moduleName 0)

/-- The statement as a node. -/
def statementRef : SyntaxRef := statementEntry.toRef (.entry moduleName 1)

/-- The attribute as a node. -/
def attributeRef : SyntaxRef := attributeEntry.toRef (.entry moduleName 2)

/-- The name as a node. -/
def nameRef : SyntaxRef := nameEntry.toRef (.entry moduleName 3)

/-- The context as a node. -/
def contextRef : SyntaxRef := contextEntry.toRef (.shared "Load")

theorem parsedModule_attributeNodes : ParsedModule attributeNodes := by
  refine ⟨by decide, fun e he => ?_⟩
  simp only [attributeNodes, List.mem_toArray, List.mem_cons, List.not_mem_nil, or_false] at he
  rcases he with rfl | rfl | rfl | rfl | rfl <;>
    exact ⟨by decide +kernel, by decide +kernel, by decide +kernel⟩

theorem nodesBelow_attributeNodes :
    (sceneOf attributeNodes).nodesBelow moduleRef = [statementRef] ∧
    (sceneOf attributeNodes).nodesBelow statementRef = [attributeRef] ∧
    (sceneOf attributeNodes).nodesBelow attributeRef = [nameRef, contextRef] ∧
    (sceneOf attributeNodes).nodesBelow nameRef = [contextRef] ∧
    (sceneOf attributeNodes).nodesBelow contextRef = [] := by
  have h1 : (sceneOf attributeNodes).moduleNode moduleName 1 = .ok (.syntaxNode statementRef) :=
    moduleNode_sceneOf (e := statementEntry) rfl
  have h2 : (sceneOf attributeNodes).moduleNode moduleName 2 = .ok (.syntaxNode attributeRef) :=
    moduleNode_sceneOf (e := attributeEntry) rfl
  have h3 : (sceneOf attributeNodes).moduleNode moduleName 3 = .ok (.syntaxNode nameRef) :=
    moduleNode_sceneOf (e := nameEntry) rfl
  have h4 : (sceneOf attributeNodes).moduleNode moduleName 4 = .ok (.syntaxNode contextRef) :=
    moduleNode_sceneOf (e := contextEntry) rfl
  have hmodule : Scene.read.readAll (sceneOf attributeNodes) [.list [.entry moduleName 1]] =
      .ok [.list [.syntaxNode statementRef]] := by
    simp only [Scene.read.readAll, Scene.read, h1]
    rfl
  have hstatement : Scene.read.readAll (sceneOf attributeNodes) [.entry moduleName 2] =
      .ok [.syntaxNode attributeRef] := by
    simp only [Scene.read.readAll, Scene.read, h2]
    rfl
  have hattribute : Scene.read.readAll (sceneOf attributeNodes)
      [.entry moduleName 3, .value (.text "b"), .entry moduleName 4] =
        .ok [.syntaxNode nameRef, .text "b", .syntaxNode contextRef] := by
    simp only [Scene.read.readAll, Scene.read, h3, h4]
    rfl
  have hname : Scene.read.readAll (sceneOf attributeNodes)
      [.value (.text "a"), .entry moduleName 4] = .ok [.text "a", .syntaxNode contextRef] := by
    simp only [Scene.read.readAll, Scene.read, h4]
    rfl
  exact ⟨Scene.nodesBelow_entry (e := moduleEntry) rfl rfl hmodule,
    Scene.nodesBelow_entry (e := statementEntry) rfl rfl hstatement,
    Scene.nodesBelow_entry (e := attributeEntry) rfl rfl hattribute,
    Scene.nodesBelow_entry (e := nameEntry) rfl rfl hname, rfl⟩

theorem arrivals_attributeNodes : Arrivals (sceneOf attributeNodes).nodesBelow [] [] [moduleRef]
    [(moduleRef, []), (statementRef, [moduleRef]), (attributeRef, [statementRef, moduleRef]),
      (nameRef, [attributeRef, statementRef, moduleRef]),
      (contextRef, [nameRef, attributeRef, statementRef, moduleRef])] := by
  obtain ⟨hmodule, hstatement, hattribute, hname, hcontext⟩ := nodesBelow_attributeNodes
  have hfound : Arrivals (sceneOf attributeNodes).nodesBelow [] [] [moduleRef] _ :=
    .first_of_kids (by decide) hmodule
      (.first_of_kids (by decide) hstatement
        (.first_of_kids (by decide) hattribute
          (.first_of_kids (by decide) hname
            (.first_of_kids (by decide) hcontext (.nil _ _) (.nil _ _))
            (.again contextRef (by decide) (.nil _ _)))
          (.nil _ _))
        (.nil _ _))
      (.nil _ _)
  exact hfound

/-- So the context is beyond a limit of 3, though it has three ancestors elsewhere, and nothing is
beyond a limit of 4. -/
theorem run_parsed_attribute : ∃ enough, ∀ budget, enough ≤ budget →
    (run (fun _ => .ok attributeNodes) budget ["m.py", "--max-depth", "3"]).Gives
      [configLine ⟨"m.py", some 3, 10, false⟩,
        "[census] aborted: traversal failed at depth 4: maximum depth 3 exceeded"] 1 ∧
    (run (fun _ => .ok attributeNodes) budget ["m.py", "--max-depth", "4"]).ending =
      .status 0 := by
  obtain ⟨root, arrivals, counts, enough, hroot, harrivals, -, hrun⟩ :=
    @run_parsed (fun _ => .ok attributeNodes) attributeNodes "m.py" rfl parsedModule_attributeNodes
  have hmodule : (sceneOf attributeNodes).read (.entry moduleName 0) =
      .ok (.syntaxNode moduleRef) := moduleNode_sceneOf (e := moduleEntry) rfl
  obtain rfl : root = moduleRef := Value.syntaxNode.inj (Except.ok.inj (hroot.symm.trans hmodule))
  cases harrivals.unique arrivals_attributeNodes
  have hthree := hrun ⟨"m.py", some 3, 10, false⟩ ["m.py", "--max-depth", "3"] (by decide +kernel)
    rfl fun d hd => by cases hd; decide
  have hfour := hrun ⟨"m.py", some 4, 10, false⟩ ["m.py", "--max-depth", "4"] (by decide +kernel)
    rfl fun d hd => by cases hd; decide
  refine ⟨enough, fun budget hle => ⟨?_, ?_⟩⟩
  · exact (hthree.1 budget hle).1 3 rfl (by decide)
  · refine ((hfour.1 budget hle).2 fun d hd => ?_).2
    obtain rfl : d = 4 := Int.ofNat.inj (Option.some.inj hd).symm
    decide

end Attribute

end Census

end GraphFold
