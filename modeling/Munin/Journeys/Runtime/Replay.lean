import Munin.Journeys.Runtime.Execute
import Munin.Journeys.Validator
import Mathlib.Data.List.Basic

/-!
# A completed step, replayed

A run that crashed after a step was completed goes on from the label that the step stored:
`edgeTarget` must lead where the execution led.

* **`Outcome.Follows`** — an outcome whose label leads to its own target.
* **`Replayable`** — when the label of a step leads back to its target: it does for every kind of
  node but two. Agent nodes are missing from `edgeTarget`, and of two paths of a split with one name
  the first is found.
* **`replay_follows_iff`** — the label leads back exactly then.
-/

namespace Munin

open Foundations

/-- What `runNode` makes of a completed step. -/
def storedOutcome (node : JourneyNode) (run : StepRun) : Outcome :=
  match run.edgeTaken.filter (· ≠ "") with
  | some edge => .advance edge (edgeTarget node edge) none none
  | none => .exit (run.reason.getD "reached_end") none

/-- An outcome whose label is not empty and leads to its own target. -/
def Outcome.Follows (node : JourneyNode) : Outcome → Prop
  | .advance edge to' _ _ => edge ≠ "" ∧ edgeTarget node edge = to'
  | .wait .. | .exit .. | .retry .. => True

@[simp]
theorem follows_requestAgent (node : JourneyNode) (env : StepEnv) (step : StepContext)
    (timeout : String) (output : Record) (reason : String) :
    (requestAgent env step timeout output reason).Follows node := by
  unfold requestAgent
  split <;> trivial

variable {to' : Option NodeId}

theorem follows_advance {node : JourneyNode} {edge : String}
    (output : Option Record) (reason : Option String) (hedge : edge ≠ "")
    (h : edgeTarget node edge = to') : (Outcome.advance edge to' output reason).Follows node :=
  ⟨hedge, h⟩

theorem follows_next {node : JourneyNode} (reason : Option String)
    (output : Option Record) (h : edgeTarget node "next" = to') :
    (Outcome.next to' reason output).Follows node :=
  ⟨by decide, h⟩

/-! ### Messages -/

/-- What the schema says of an id that is there. -/
theorem truthy_of_isNodeId {id : Option NodeId} (h : id.all isNodeId = true) :
    truthy id = id.isSome := by
  cases id with
  | none => rfl
  | some id =>
    have hne : id ≠ "" := by
      rintro rfl
      exact absurd h (by decide)
    simp [truthy, hne]

theorem not_outcome_next : jsStartsWith "next" "outcome_" = false := by decide

theorem edgeTarget_message_next (n : MessageNode) : edgeTarget (.message n) "next" = n.next := by
  simp [edgeTarget, not_outcome_next]

theorem edgeTarget_message_unseen (n : MessageNode) :
    edgeTarget (.message n) "on_unseen" = n.onUnseen.orElse fun _ => n.next := by
  have hno : jsStartsWith "on_unseen" "outcome_" = false := by decide
  simp [edgeTarget, hno]

theorem edgeTarget_message_outcome (n : MessageNode) (outcome : String) :
    edgeTarget (.message n) ("outcome_" ++ outcome) =
      (n.outcomeEdge outcome).orElse fun _ => n.next := by
  have hlist : ("outcome_" ++ outcome).toList = "outcome_".toList ++ outcome.toList := by simp
  have hstart : jsStartsWith ("outcome_" ++ outcome) "outcome_" = true := by
    rw [jsStartsWith, hlist, List.isPrefixOf_iff_prefix]
    exact List.prefix_append _ _
  have hdrop : String.ofList (("outcome_" ++ outcome).toList.drop 8) = outcome := by
    rw [hlist, show "outcome_".toList = ['o', 'u', 't', 'c', 'o', 'm', 'e', '_'] by decide]
    simp
  simp only [edgeTarget, hstart, if_true, hdrop]

/-- Where an outcome leads is a node id. -/
theorem outcomeEdge_all {n : MessageNode} (h : (JourneyNode.message n).conforms = true)
    (outcome : String) : (n.outcomeEdge outcome).all isNodeId = true := by
  have houtcomes : ∀ o ∈ CallOutcome.all,
      ((n.onOutcome.getD {}).get o).all isNodeId = true := by
    simp only [JourneyNode.conforms, Bool.and_eq_true, List.all_eq_true] at h
    exact h.2.1.1.1.1.2
  unfold MessageNode.outcomeEdge
  cases hfind : CallOutcome.all.find? (·.text = outcome) with
  | none => rfl
  | some o => exact houtcomes o (List.mem_of_find?_eq_some hfind)

theorem onUnseen_all {n : MessageNode} (h : (JourneyNode.message n).conforms = true) :
    n.onUnseen.all isNodeId = true := by
  simp only [JourneyNode.conforms, Bool.and_eq_true] at h
  exact h.2.1.1.2

section Message

variable (env : StepEnv) (step : StepContext) {n : MessageNode}

theorem follows_message_next (n : MessageNode) (reason : Option String) (output : Option Record) :
    (Outcome.next n.next reason output).Follows (.message n) :=
  follows_next reason output (edgeTarget_message_next n)

theorem follows_awaitChatSeen (n : MessageNode) (previous : Record) (proposalId : Option Json) :
    (awaitChatSeen env n previous proposalId).Follows (.message n) := by
  unfold awaitChatSeen
  dsimp only
  split
  · exact follows_message_next n _ _
  · trivial

theorem follows_companyMessageOutcome (n : MessageNode) (resolution : Option String) :
    (companyMessageOutcome env step n resolution).Follows (.message n) := by
  unfold companyMessageOutcome
  dsimp only
  split
  · trivial
  · split
    · exact follows_message_next n _ _
    · split
      · trivial
      · split <;> trivial

theorem follows_sendMessage (n : MessageNode) (previous : Record) (f : EnrollmentFile) :
    (sendMessage env step n previous f).2.Follows (.message n) := by
  unfold sendMessage
  split
  · exact follows_message_next n _ _
  · split
    · trivial
    · dsimp only
      split
      · split
        · exact follows_awaitChatSeen env n previous (some (.str _))
        · exact follows_message_next n _ _
      · trivial
      · trivial

theorem follows_resumeMessage (hconforms : (JourneyNode.message n).conforms = true)
    (previous : Record) (wait : JourneyWait) :
    (resumeMessage env step n previous wait).Follows (.message n) := by
  unfold resumeMessage
  dsimp only
  split
  · -- the chat message was awaited to be seen
    by_cases hseen : wait.resolution = some "event"
    · simp only [hseen, decide_true, if_true, truthy_none, Bool.false_eq_true, if_false]
      exact follows_message_next n _ _
    · simp only [hseen, decide_false, if_false]
      rw [truthy_of_isNodeId (onUnseen_all hconforms)]
      cases hunseen : n.onUnseen with
      | none => exact follows_message_next n _ _
      | some id =>
        rw [Option.isSome_some, if_pos rfl]
        refine follows_advance _ _ (by decide) ?_
        rw [edgeTarget_message_unseen, hunseen]
  · split
    · -- the call's outcome was awaited
      rw [truthy_of_isNodeId (outcomeEdge_all hconforms _)]
      cases hedge : n.outcomeEdge (reportedOutcome step wait) with
      | none => exact follows_message_next n _ _
      | some id =>
        rw [Option.isSome_some, if_pos rfl]
        refine follows_advance _ _ (by simp) ?_
        rw [edgeTarget_message_outcome, hedge]
    · split
      · split
        · trivial
        · exact follows_awaitChatSeen env n previous _
        · exact follows_message_next n _ _
        · exact follows_message_next n _ _
      · exact follows_message_next n _ _
      · trivial
      · trivial
      · trivial

/-- **The labels of messages lead back.** -/
theorem follows_executeMessage (hconforms : (JourneyNode.message n).conforms = true)
    (f : EnrollmentFile) : (executeMessage env step n f).2.Follows (.message n) := by
  unfold executeMessage
  dsimp only
  split
  · unfold executeCompanyMessage
    split
    · exact follows_companyMessageOutcome env step n _
    · split
      · exact follows_message_next n _ _
      · split
        · trivial
        · exact follows_companyMessageOutcome env step n none
  · split
    · split
      · split
        · exact follows_message_next n _ _
        · exact follows_requestAgent _ env step _ _ _
      · exact follows_sendMessage env step n _ f
    · split
      · exact follows_resumeMessage env step hconforms _ _
      · exact follows_sendMessage env step n _ f

end Message

/-! ### Branches -/

theorem ruleLabel_ne_default (i : Nat) : ruleLabel i ≠ "default" := by
  intro h
  have hhead : (ruleLabel i).toList.head? = some 'd' := by
    rw [h]
    decide
  simp [ruleLabel] at hhead

theorem readDigits_of_digits {cs : List Char} (h : ∀ c ∈ cs, c.isDigit = true) (n : Nat) :
    readDigits n cs = (Nat.ofDigitChars 10 cs n, []) := by
  induction cs generalizing n with
  | nil => rfl
  | cons c cs ih =>
    have htail := ih (fun d hd => h d (List.mem_cons_of_mem _ hd)) (10 * n + (c.toNat - 48))
    rw [readDigits, if_pos (h c List.mem_cons_self), htail]
    rfl

theorem ruleNumber_ruleLabel (i : Nat) : ruleNumber (ruleLabel i) = some (i + 1) := by
  have hlist : (ruleLabel i).toList = "rule_".toList ++ Nat.toDigits 10 (i + 1) := by
    simp [ruleLabel]
  have hstart : jsStartsWith (ruleLabel i) "rule_" = true := by
    rw [jsStartsWith, hlist, List.isPrefixOf_iff_prefix]
    exact List.prefix_append _ _
  have hdrop : (ruleLabel i).toList.drop 5 = Nat.toDigits 10 (i + 1) := by
    rw [hlist, show "rule_".toList = ['r', 'u', 'l', 'e', '_'] by decide]
    rfl
  have hdigits : ∀ c ∈ Nat.toDigits 10 (i + 1), c.isDigit = true :=
    fun c hc => Nat.isDigit_of_mem_toDigits (by decide) (by decide) hc
  rw [ruleNumber, if_pos hstart, hdrop, readDigits_of_digits hdigits,
    Nat.ofDigitChars_ten_toDigits]

/-- **The labels of branches lead back.** -/
theorem follows_executeBranch (env : StepEnv) (n : BranchNode) :
    (executeBranch env n).Follows (.branch n) := by
  unfold executeBranch
  split
  · rename_i rule index hfind
    have hmem := List.mem_of_find?_eq_some hfind
    have hrule : n.rules[index]? = some rule := by
      obtain ⟨-, hlt, hget⟩ := List.mem_zipIdx hmem
      simp only [Nat.sub_zero] at hget
      rw [hget]
      exact List.getElem?_eq_getElem _
    refine follows_advance _ _ (fun h => ?_) ?_
    · have hlen := congrArg (fun s => s.toList.length) h
      simp [ruleLabel] at hlen
    · simp only [edgeTarget, ruleLabel_ne_default, if_false, ruleNumber_ruleLabel, hrule,
        Option.map_some]
  · exact follows_advance _ _ (by decide) (by simp [edgeTarget])

/-! ### Splits -/

section Split

variable {n : SplitNode} {bucket : Nat}

/-- The bucket is in the share of the percentages that a path has after the paths before it. -/
def InShare (bucket : Nat) (before : List SplitPath) (path : SplitPath) : Prop :=
  (before.map (·.percent)).sum ≤ bucket ∧ bucket < (before.map (·.percent)).sum + path.percent

/-- The path that the loop finds is the one whose share has the bucket. -/
theorem pathOfBucket_inShare (paths before : List SplitPath)
    (hle : (before.map (·.percent)).sum ≤ bucket)
    (hlt : bucket < (before.map (·.percent)).sum + (paths.map (·.percent)).sum) :
    ∃ skipped path after, paths = skipped ++ path :: after ∧
      InShare bucket (before ++ skipped) path ∧
      pathOfBucket bucket (before.map (·.percent)).sum paths = some path := by
  induction paths generalizing before with
  | nil => exact absurd hlt (by simpa using hle)
  | cons p ps ih =>
    unfold pathOfBucket
    by_cases hp : bucket < (before.map (·.percent)).sum + p.percent
    · rw [if_pos hp]
      refine ⟨[], p, ps, rfl, ⟨?_, ?_⟩, rfl⟩
      · rwa [List.append_nil]
      · rwa [List.append_nil]
    · rw [if_neg hp]
      have hsum : ((before ++ [p]).map (·.percent)).sum =
          (before.map (·.percent)).sum + p.percent := by simp
      obtain ⟨skipped, path, after, rfl, hshare, hpath⟩ :=
        ih (before ++ [p]) (by omega) (by simp at hlt hsum ⊢; omega)
      rw [hsum] at hpath
      refine ⟨p :: skipped, path, after, rfl, ?_, by rw [hpath]⟩
      rwa [List.append_assoc] at hshare

/-- Only one path's share has the bucket. -/
theorem inShare_unique {before before' after after' : List SplitPath} {path path' : SplitPath}
    (h : InShare bucket before path) (h' : InShare bucket before' path')
    (heq : before ++ path :: after = before' ++ path' :: after') : path = path' := by
  induction before generalizing before' bucket with
  | nil =>
    cases before' with
    | nil => exact (List.cons.inj heq).1
    | cons q qs =>
      obtain ⟨rfl, -⟩ := List.cons.inj heq
      have hle := h'.1
      have hlt := h.2
      simp only [List.map_nil, List.sum_nil, List.map_cons, List.sum_cons] at hle hlt
      omega
  | cons p ps ih =>
    cases before' with
    | nil =>
      obtain ⟨rfl, -⟩ := List.cons.inj heq
      have hle := h.1
      have hlt := h'.2
      simp only [List.map_nil, List.sum_nil, List.map_cons, List.sum_cons] at hle hlt
      omega
    | cons q qs =>
      obtain ⟨rfl, htail⟩ := List.cons.inj heq
      unfold InShare at h h'
      simp only [List.map_cons, List.sum_cons] at h h'
      have hrest : InShare (bucket - p.percent) ps path := ⟨by omega, by omega⟩
      have hrest' : InShare (bucket - p.percent) qs path' := ⟨by omega, by omega⟩
      exact ih hrest hrest' htail

/-- Whether the label of the path that has the bucket leads back to it. -/
def SplitNode.Returns (n : SplitNode) (bucket : Nat) : Prop :=
  ∀ before path after, n.paths = before ++ path :: after → InShare bucket before path →
    ∀ first, n.path path.name = some first → first.next = path.next

/-- The control path bears its own name. -/
theorem path_of_sampleFull {arrivals : Nat} {control : SplitPath}
    (h : n.sampleFull arrivals = some control) : n.path control.name = some control := by
  unfold SplitNode.sampleFull at h
  split at h
  · rename_i path size hcontrol _
    split at h
    · cases h
      obtain ⟨name, -, hpath⟩ := Option.bind_eq_some_iff.1 hcontrol
      have hname : control.name = name := by simpa using List.find?_some hpath
      rw [hname]
      exact hpath
    · cases h
  · cases h

/-- **The labels of splits lead back**, unless an earlier path has the same name. -/
theorem follows_executeSplit {env : StepEnv} {step : StepContext}
    (hconforms : (JourneyNode.split n).conforms = true)
    (hsum : (n.paths.map (·.percent)).sum = 100) {edge : String} {to' : Option NodeId}
    {output : Option Record} {reason : Option String}
    (h : executeSplit env step n = .ok (.advance edge to' output reason)) :
    edge ≠ "" ∧ (edgeTarget (.split n) edge = to' ↔
      (n.sampleFull env.splitArrivals).isSome ∨ n.Returns (splitBucket step.enrollment n)) := by
  have hname : ∀ p ∈ n.paths, p.name ≠ "" := by
    simp only [JourneyNode.conforms, Bool.and_eq_true, List.all_eq_true] at hconforms
    intro p hp hempty
    have hid := (hconforms.2.1.1.2 p hp).1.1.1
    rw [hempty] at hid
    exact absurd hid (by decide)
  unfold executeSplit at h
  dsimp only at h
  cases hfull : n.sampleFull env.splitArrivals with
  | some control =>
    rw [hfull] at h
    cases h
    have hpath := path_of_sampleFull hfull
    refine ⟨hname control (List.mem_of_find?_eq_some hpath), ?_⟩
    simp [edgeTarget, hpath]
  | none =>
    rw [hfull] at h
    obtain ⟨skipped, path, after, hpaths, hshare, hfound⟩ :=
      pathOfBucket_inShare n.paths [] (Nat.zero_le (splitBucket step.enrollment n))
        (by rw [hsum]; simpa [splitBucket] using stableBucket_lt _)
    simp only [List.map_nil, List.sum_nil] at hfound
    simp only [hfound] at h
    cases h
    have hmem : path ∈ n.paths := by simp [hpaths]
    refine ⟨hname path hmem, ?_⟩
    -- Some path has the name: the one that was taken.
    obtain ⟨first, hfirst⟩ : ∃ first, n.path path.name = some first :=
      Option.isSome_iff_exists.1 (List.find?_isSome.2 ⟨path, hmem, by simp⟩)
    have htarget : edgeTarget (.split n) path.name = some first.next := by
      simp [edgeTarget, hfirst]
    rw [htarget]
    constructor
    · intro heq
      refine Or.inr fun before path' after' hpaths' hshare' first' hfirst' => ?_
      obtain rfl := inShare_unique hshare' hshare (hpaths'.symm.trans hpaths)
      obtain rfl := Option.some.inj (hfirst'.symm.trans hfirst)
      exact Option.some.inj heq
    · rintro (hnone | hreturns)
      · cases hnone
      · rw [hreturns skipped path after hpaths hshare first hfirst]

end Split

/-! ### The law of replay -/

/-- When the label of a step leads back to its target. -/
def Replayable (arrivals : Nat) (enrollment : Enrollment) : JourneyNode → Prop
  | .agent n => n.mode = .enrich ∧ n.next = none
  | .split n => (n.sampleFull arrivals).isSome ∨ n.Returns (splitBucket enrollment n)
  | _ => True

/-- A decision leads somewhere, so that `edgeTarget`, which knows no agents, misses it. -/
theorem target_of_executeAgent {env : StepEnv} {step : StepContext} {n : AgentNode}
    (hfallback : n.mode = .decide → ∃ fallback, n.fallback = some fallback ∧ fallback ≠ "" ∧
      ((n.edges.getD []).lookup fallback).isSome) {edge : String}
    {output : Option Record} {reason : Option String}
    (h : executeAgent env step n = .advance edge to' output reason) :
    edge ≠ "" ∧ (none = to' ↔ n.mode = .enrich ∧ n.next = none) := by
  have hrequest : ∀ timeout output' reason',
      requestAgent env step timeout output' reason' ≠ .advance edge to' output reason := by
    intro timeout output' reason'
    unfold requestAgent
    split <;> simp
  unfold executeAgent at h
  dsimp only at h
  split at h
  · rename_i hmode _
    cases h
    refine ⟨by decide, ?_⟩
    rw [hmode]
    simp [eq_comm]
  · exact absurd h (hrequest _ _ _)
  · rename_i hmode _
    obtain ⟨fallback, hf, hne, hsome⟩ := hfallback hmode
    split at h
    · rename_i hdecided
      cases h
      unfold decidedEdge at hdecided
      split at hdecided
      · obtain ⟨hne', hsome'⟩ : edge ≠ "" ∧ ((n.edges.getD []).lookup edge).isSome := by
          simpa using (Option.filter_eq_some_iff.1 hdecided).2
        refine ⟨hne', ?_⟩
        obtain ⟨target, htarget⟩ := Option.isSome_iff_exists.1 hsome'
        simp [htarget, hmode]
      · cases hdecided
    · cases h
      obtain ⟨target, htarget⟩ := Option.isSome_iff_exists.1 hsome
      rw [hf, Option.getD_some, htarget]
      exact ⟨hne, by simp [hmode]⟩
  · exact absurd h (hrequest _ _ _)

section Law

variable {checkMessageMergeFields : MessageNode → Issues} {spec : JourneySpec}
  {refs : JourneyReferences}

/-- The label of an execution leads back to its target exactly where the node is replayable. -/
theorem label_of_execute (hconforms : spec.conforms = true)
    (hvalid : (validateJourneySpec checkMessageMergeFields spec refs).valid = true)
    {node : JourneyNode} (hnode : node ∈ spec.nodes) {env : StepEnv} {step : StepContext}
    {f g : EnrollmentFile} {edge : String} {to' : Option NodeId} {output : Option Record}
    {reason : Option String}
    (hexec : execute env step node f = .ok (g, .advance edge to' output reason)) :
    edge ≠ "" ∧
      (edgeTarget node edge = to' ↔ Replayable env.splitArrivals step.enrollment node) := by
  have hnodeOk := spec.conforms_node hconforms hnode
  -- Where the node's own lemma gives `Follows`, nothing is left to show.
  have hfollows : ∀ o : Outcome, o.Follows node →
      Replayable env.splitArrivals step.enrollment node →
      o = .advance edge to' output reason → edge ≠ "" ∧
        (edgeTarget node edge = to' ↔ Replayable env.splitArrivals step.enrollment node) := by
    rintro o ho hreplayable rfl
    exact ⟨ho.1, ⟨fun _ => hreplayable, fun _ => ho.2⟩⟩
  cases node with
  | split n =>
    simp only [execute] at hexec
    cases hs : executeSplit env step n with
    | error e => simp [hs, Except.map] at hexec
    | ok o =>
      rw [hs] at hexec
      cases hexec
      exact follows_executeSplit hnodeOk (percent_of_valid hvalid hnode) hs
  | agent n =>
    have ho : executeAgent env step n = .advance edge to' output reason :=
      congrArg Prod.snd (Except.ok.inj hexec)
    exact target_of_executeAgent (fun hmode => fallback_of_valid hvalid hnode hmode) ho
  | message n =>
    exact hfollows _ (follows_executeMessage env step hnodeOk f) trivial
      (congrArg Prod.snd (Except.ok.inj hexec))
  | branch n =>
    exact hfollows _ (follows_executeBranch env n) trivial
      (congrArg Prod.snd (Except.ok.inj hexec))
  | jump n =>
    exact hfollows _ (follows_advance none none (by decide) rfl) trivial
      (congrArg Prod.snd (Except.ok.inj hexec))
  | exit n =>
    exact hfollows (.exit n.reason none) trivial trivial (congrArg Prod.snd (Except.ok.inj hexec))
  | goal n =>
    refine hfollows _ ?_ trivial (congrArg Prod.snd (Except.ok.inj hexec))
    split
    · trivial
    · exact follows_next _ _ rfl
  | wait n =>
    refine hfollows _ ?_ trivial (congrArg Prod.snd (Except.ok.inj hexec))
    unfold executeWait
    split
    · exact follows_next _ _ rfl
    · split
      · exact follows_next _ _ rfl
      · dsimp only
        split
        · exact follows_next _ _ rfl
        · trivial
  | waitFor n =>
    refine hfollows _ ?_ trivial (congrArg Prod.snd (Except.ok.inj hexec))
    unfold executeWaitFor
    split
    · split
      · exact follows_next _ _ rfl
      · split
        · exact follows_advance _ _ (by decide) rfl
        · trivial
    · trivial
  | action n =>
    refine hfollows _ ?_ trivial (congrArg Prod.snd (Except.ok.inj hexec))
    unfold executeAction
    split
    · exact follows_next _ _ rfl
    · split
      · trivial
      · split
        · trivial
        · exact follows_next _ _ rfl
  | approval n =>
    refine hfollows _ ?_ trivial (congrArg Prod.snd (Except.ok.inj hexec))
    unfold executeApproval
    split
    · split
      · exact follows_next _ _ rfl
      · split
        · dsimp only
          split
          · exact follows_advance _ _ (by decide) rfl
          · trivial
        · dsimp only
          split
          · exact follows_advance _ _ (by decide) rfl
          · trivial
    · trivial
  | subJourney n =>
    refine hfollows _ ?_ trivial (congrArg Prod.snd (Except.ok.inj hexec))
    unfold executeSubJourney
    dsimp only
    split
    · dsimp only
      split
      · split
        · exact follows_advance _ _ (by decide) rfl
        · exact follows_next _ _ rfl
      · exact follows_next _ _ rfl
    · split
      · exact follows_next _ _ rfl
      · split
        · exact follows_next _ _ rfl
        · split
          · exact follows_next _ _ rfl
          · dsimp only
            split
            · exact follows_next _ _ rfl
            · trivial

/-- **When a completed step replays.** For a valid spec, the label that an execution stores leads
back to the node that the execution chose exactly if the node is replayable; and the stored run of
the step is replayed along that label. -/
theorem replay_follows_iff (hconforms : spec.conforms = true)
    (hvalid : (validateJourneySpec checkMessageMergeFields spec refs).valid = true)
    {node : JourneyNode} (hnode : node ∈ spec.nodes) {env : StepEnv} {step : StepContext}
    {f g : EnrollmentFile} {edge : String} {to' : Option NodeId} {output : Option Record}
    {reason : Option String}
    (hexec : execute env step node f = .ok (g, .advance edge to' output reason)) :
    (edgeTarget node edge = to' ↔ Replayable env.splitArrivals step.enrollment node) ∧
      ∀ run : StepRun, run.edgeTaken = some edge →
        storedOutcome node run = .advance edge (edgeTarget node edge) none none := by
  obtain ⟨hedge, hiff⟩ := label_of_execute hconforms hvalid hnode hexec
  refine ⟨hiff, fun run hrun => ?_⟩
  have hfilter : run.edgeTaken.filter (· ≠ "") = some edge := by simp [hrun, hedge]
  rw [storedOutcome, hfilter]

end Law

/-- A decision between two edges. -/
def askNode : AgentNode where
  id := "ask"
  mode := .decide
  edges := some [("yes", "won"), ("no", "lost")]
  fallback := some "no"
  inputs := [.contact]

/-- A valid spec that starts with a node and ends in one of two exits. -/
def sampleJourney (node : JourneyNode) : JourneySpec where
  entry := { trigger := .manual }
  goal := some { event := "order", windowDays := 7 }
  start := node.id
  nodes := [node, .exit { id := "won" }, .exit { id := "lost" }]

/-- An enrollment at a node, for samples. -/
def sampleEnrollment (node : NodeId) : Enrollment where
  id := "e1"
  journeyId := "j1"
  version := 1
  subjectKey := "c:1"
  contactId := some "1"
  currentNode := some node
  visits := [(node, .count 1)]

/-- A step whose agent did not answer in time. -/
def sampleStep (node : JourneyNode) : StepContext where
  run :=
    { id := 0, nodeId := node.id, nodeType := node.type, version := 1, visit := 1,
      status := .waiting }
  enrollment := sampleEnrollment node.id
  spec := sampleJourney node
  resumed := some
    { id := 1, stepRunId := 0, kind := .agent, resolvedAt := some 1, resolution := some "timeout",
      createdAt := 0 }

/-- The file of a sample. -/
def sampleFile (node : JourneyNode) : EnrollmentFile where
  row := sampleEnrollment node.id

theorem replay_follows_iff_sample :
    (edgeTarget (.agent askNode) "no" = some "lost" ↔
      Replayable 0 (sampleEnrollment "ask") (.agent askNode)) ∧
    ∀ run : StepRun, run.edgeTaken = some "no" →
      storedOutcome (.agent askNode) run =
        .advance "no" (edgeTarget (.agent askNode) "no") none none := by
  have hvalid : (validateJourneySpec (fun _ => {}) (sampleJourney (.agent askNode)) {}).valid =
      true := by decide
  have hexec : execute { now := 0, clock := 0 } (sampleStep (.agent askNode)) (.agent askNode)
      (sampleFile (.agent askNode)) = .ok (sampleFile (.agent askNode), .advance "no" (some "lost")
        (some [("decision", .obj [("edge", .str "no"), ("fallback", .bool true),
          ("reason", .str "no decision in time")])]) "fallback: no decision in time") := rfl
  exact replay_follows_iff (by decide) hvalid List.mem_cons_self hexec

/-- **A decision does not replay**: the label of the fallback leads nowhere. -/
theorem decision_not_replayed :
    ¬ ∀ (checkMessageMergeFields : MessageNode → Issues) (spec : JourneySpec)
      (refs : JourneyReferences), spec.conforms = true →
      (validateJourneySpec checkMessageMergeFields spec refs).valid = true →
      ∀ node ∈ spec.nodes, ∀ (env : StepEnv) (step : StepContext) (f g : EnrollmentFile)
        (edge : String) (to' : Option NodeId) (output : Option Record) (reason : Option String),
      execute env step node f = .ok (g, .advance edge to' output reason) →
      edgeTarget node edge = to' := by
  intro h
  have htarget := h (fun _ => {}) (sampleJourney (.agent askNode)) {} (by decide) (by decide)
    (.agent askNode) List.mem_cons_self { now := 0, clock := 0 } (sampleStep (.agent askNode))
    (sampleFile (.agent askNode)) _ _ _ _ _ rfl
  exact absurd htarget (by decide)

end Munin
