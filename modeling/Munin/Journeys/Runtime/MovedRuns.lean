import Munin.Foundations.KeyedList
import Munin.Journeys.Runtime.Moves

/-!
# The moves are those that were previewed

A preview names the groups of runs that would move and the runs that would not. If nothing changes
before the confirmation, these are the moves.

* **`planned`, `leftOut`** — the decision on one run, without the loop; `planMove_eq_planned`: it is
  that of the step `FileAct.move`; `planRuns_eq_ok`: what the loop collects of it.
* **`plan_eq_of_key`, `lookup_groups`** — the runs of a group go on at one node, and are counted.
* **`MoveEnrollmentsResult.listed`** — what an answer lists for a run, read off the answer alone;
  `listed_eq`: that is the plan.
* **`AppliesAsListed`** — what the confirmed call does, in terms of the preview's answer.
-/

namespace Munin

open Foundations

/-! ### Keys of groups -/

theorem toList_byNodeKey (version : Nat) (from' : NodeId) :
    (byNodeKey version from').toList =
      'v' :: (Nat.toDigits 10 version ++ ':' :: from'.toList) := by
  simp [byNodeKey]

/-- **A key tells version and node**: the digits of the version end at the colon. -/
theorem byNodeKey_inj {m n : Nat} {a b : NodeId} (h : byNodeKey m a = byNodeKey n b) :
    m = n ∧ a = b := by
  have hlist := congrArg String.toList h
  rw [toList_byNodeKey, toList_byNodeKey, List.cons.injEq] at hlist
  have hdigits (k : Nat) (rest : List Char) :
      (Nat.toDigits 10 k ++ ':' :: rest).takeWhile Char.isDigit = Nat.toDigits 10 k := by
    rw [List.takeWhile_append_of_pos fun c hc =>
      Nat.isDigit_of_mem_toDigits (by decide) (by decide) hc]
    exact List.append_nil _
  have hnumber := congrArg (List.takeWhile Char.isDigit) hlist.2
  rw [hdigits, hdigits] at hnumber
  have hmn : m = n := by
    rw [← Nat.ofDigitChars_ten_toDigits (n := m), hnumber, Nat.ofDigitChars_ten_toDigits]
  subst hmn
  have hrest := List.append_cancel_left hlist.2
  exact ⟨rfl, String.toList_inj.1 (List.cons.inj hrest).2⟩

/-! ### The decision on one run -/

section Decision

variable (specOf : Nat → Except JourneyError JourneySpec) (toSpec : JourneySpec) (input : MoveInput)

/-- Where a run is, and what is decided of it. -/
def decided (f : EnrollmentFile) : Option (NodeId × MoveVerdict) :=
  f.at'.bind fun from' => (specOf f.row.version).toOption.map fun fromSpec =>
    (from', moveVerdict fromSpec toSpec input f from')

/-- The entry of the plan for a run. -/
def planned (f : EnrollmentFile) : Option PlannedRun :=
  match decided specOf toSpec input f with
  | some (from', .move to' resumes) => some ⟨f.row.id, f.row.version, from', to', resumes⟩
  | _ => none

/-- The entry for a run that stays. -/
def leftOut (f : EnrollmentFile) : Option SkippedRun :=
  match decided specOf toSpec input f with
  | some (from', .skip reason) => some ⟨f.row.id, from', reason⟩
  | _ => none

variable {specOf toSpec input}

/-- **What the loop collects**, with the spec of each run's version at hand. -/
theorem planRuns_eq_ok {fs : List EnrollmentFile} {tally t : MoveTally}
    (h : planRuns specOf toSpec input fs tally = .ok t) :
    t.plan = tally.plan ++ fs.filterMap (planned specOf toSpec input) ∧
      t.skipped = tally.skipped ++ fs.filterMap (leftOut specOf toSpec input) ∧
      t.byNode = (fs.filterMap (planned specOf toSpec input)).foldl addToGroup tally.byNode ∧
      ∀ f ∈ fs, f.at'.isSome → (decided specOf toSpec input f).isSome := by
  induction fs generalizing tally with
  | nil =>
    cases h
    simp
  | cons f fs ih =>
    rw [planRuns] at h
    split at h
    · rename_i hat
      have hdecided : decided specOf toSpec input f = none := by rw [decided, hat]; rfl
      have hplanned : planned specOf toSpec input f = none := by rw [planned, hdecided]
      have hleft : leftOut specOf toSpec input f = none := by rw [leftOut, hdecided]
      rw [List.filterMap_cons_none hplanned, List.filterMap_cons_none hleft]
      obtain ⟨hplan, hskipped, hgroups, hall⟩ := ih h
      refine ⟨hplan, hskipped, hgroups, fun g hg hsome => ?_⟩
      rcases List.mem_cons.1 hg with rfl | hg
      · rw [hat] at hsome
        cases hsome
      · exact hall g hg hsome
    · rename_i from' hat
      obtain ⟨fromSpec, hspec, h⟩ := bind_eq_ok.1 h
      have hdecided : decided specOf toSpec input f =
          some (from', moveVerdict fromSpec toSpec input f from') := by
        rw [decided, hat, hspec]
        rfl
      obtain ⟨hplan, hskipped, hgroups, hall⟩ := ih h
      have hall' : ∀ g ∈ f :: fs, g.at'.isSome → (decided specOf toSpec input g).isSome := by
        intro g hg hsome
        rcases List.mem_cons.1 hg with rfl | hg
        · rw [hdecided]
          rfl
        · exact hall g hg hsome
      cases hverdict : moveVerdict fromSpec toSpec input f from' with
      | skip reason =>
        rw [hverdict] at hdecided hplan hskipped hgroups
        have hplanned : planned specOf toSpec input f = none := by rw [planned, hdecided]
        have hleft : leftOut specOf toSpec input f = some ⟨f.row.id, from', reason⟩ := by
          rw [leftOut, hdecided]
        rw [List.filterMap_cons_none hplanned, List.filterMap_cons_some hleft]
        refine ⟨hplan, ?_, hgroups, hall'⟩
        rw [hskipped, MoveTally.note, List.append_assoc]
        rfl
      | move to' resumes =>
        rw [hverdict] at hdecided hplan hskipped hgroups
        have hplanned : planned specOf toSpec input f =
            some ⟨f.row.id, f.row.version, from', to', resumes⟩ := by rw [planned, hdecided]
        have hleft : leftOut specOf toSpec input f = none := by rw [leftOut, hdecided]
        rw [List.filterMap_cons_some hplanned, List.filterMap_cons_none hleft]
        refine ⟨?_, hskipped, hgroups, hall'⟩
        rw [hplan, MoveTally.note, List.append_assoc]
        rfl

variable {f : EnrollmentFile}

variable {p : PlannedRun}

/-- A run of the plan: where it is, its spec, and what its move leads to. -/
theorem planned_eq_some (h : planned specOf toSpec input f = some p) :
    p.enrollmentId = f.row.id ∧ p.plan.version = f.row.version ∧
      f.at' = some p.plan.currentNode ∧ ∃ fromSpec toNode,
        specOf f.row.version = .ok fromSpec ∧
        moveTarget toSpec input p.plan.currentNode = .ok (p.plan.to', toNode) ∧
        p.plan.resumes = decide (p.plan.to' = p.plan.currentNode ∧
          (fromSpec.node p.plan.currentNode).map (·.type) = some toNode.type) ∧
        (p.plan.resumes = false → f.row.state = .waiting → f.heldBy = none) := by
  unfold planned at h
  split at h
  · rename_i from' to' resumes hdecided
    cases h
    obtain ⟨from'', hat, hdecided⟩ := Option.bind_eq_some_iff.1 hdecided
    obtain ⟨fromSpec, hspec, hverdict⟩ := Option.map_eq_some_iff.1 hdecided
    obtain ⟨rfl, hverdict⟩ := Prod.mk.inj hverdict
    have hok : specOf f.row.version = .ok fromSpec := by
      cases hs : specOf f.row.version with
      | error e => simp [hs, Except.toOption] at hspec
      | ok s =>
        rw [hs] at hspec
        exact congrArg Except.ok (Option.some.inj hspec)
    refine ⟨rfl, rfl, hat, fromSpec, ?_⟩
    unfold moveVerdict at hverdict
    split at hverdict
    · cases hverdict
    · rename_i to'' toNode htarget
      dsimp only at hverdict
      split at hverdict
      · split at hverdict
        · cases hverdict
        · rename_i hheld
          cases hverdict
          exact ⟨toNode, hok, htarget, rfl, fun _ _ => hheld⟩
      · rename_i hnot
        cases hverdict
        exact ⟨toNode, hok, htarget, rfl, fun hresumes hstate =>
          absurd ⟨congrArg (!·) hresumes, hstate⟩ hnot⟩
  · cases h

/-- **The runs of a group move alike.** -/
theorem plan_eq_of_key {g : EnrollmentFile} {q : PlannedRun}
    (hp : planned specOf toSpec input f = some p) (hq : planned specOf toSpec input g = some q)
    (h : p.key = q.key) : p.plan = q.plan := by
  obtain ⟨-, hpv, -, spec₁, node₁, hspec₁, htarget₁, hres₁, -⟩ := planned_eq_some hp
  obtain ⟨-, hqv, -, spec₂, node₂, hspec₂, htarget₂, hres₂, -⟩ := planned_eq_some hq
  obtain ⟨hversion, hnode⟩ := byNodeKey_inj h
  rw [← hpv, hversion, hqv, hspec₂] at hspec₁
  obtain rfl := Except.ok.inj hspec₁
  rw [hnode, htarget₂] at htarget₁
  obtain ⟨hto, rfl⟩ := Prod.mk.inj (Except.ok.inj htarget₁)
  have hresumes : p.plan.resumes = q.plan.resumes := by rw [hres₁, hres₂, hnode, hto]
  obtain ⟨_, _, _, _, _⟩ := p
  obtain ⟨_, _, _, _, _⟩ := q
  dsimp only at hversion hnode hto hresumes ⊢
  rw [hversion, hnode, hto, hresumes]

/-- Where nodes have ids of their own, the last with an id is the first. -/
theorem lastNode_eq_node {spec : JourneySpec} (hunique : (spec.nodes.map (·.id)).Nodup)
    (id : NodeId) : spec.lastNode id = spec.node id := by
  rw [JourneySpec.lastNode, JourneySpec.node]
  cases hlast : spec.nodes.reverse.find? (·.id = id) with
  | none =>
    refine (List.find?_eq_none.2 fun node hnode => ?_).symm
    exact List.find?_eq_none.1 hlast node (List.mem_reverse.2 hnode)
  | some last =>
    cases hfirst : spec.nodes.find? (·.id = id) with
    | none =>
      exact absurd (List.find?_some hlast) (List.find?_eq_none.1 hfirst last
        (List.mem_reverse.1 (List.mem_of_find?_eq_some hlast)))
    | some first =>
      have hids : last.id = first.id := by
        have h₁ : last.id = id := by simpa using List.find?_some hlast
        have h₂ : first.id = id := by simpa using List.find?_some hfirst
        exact h₁.trans h₂.symm
      exact congrArg some (List.inj_on_of_nodup_map hunique
        (List.mem_reverse.1 (List.mem_of_find?_eq_some hlast))
        (List.mem_of_find?_eq_some hfirst) hids)

/-- Where a mapped run goes. -/
theorem goesTo_toOption (to' : NodeId) :
    (if to' = "" then .error noMatchingNode
      else match toSpec.node to' with
        | some node => .ok (to', node)
        | none => .error (notInVersion to' input.toVersion) :
      Except String (NodeId × JourneyNode)).toOption =
    (Option.filter (· ≠ "") (some to')).bind fun to' =>
      (toSpec.node to').map fun node => (to', node) := by
  by_cases hempty : to' = ""
  · rw [if_pos hempty, hempty]
    rfl
  · rw [if_neg hempty, Option.filter_some, if_pos (by simpa using hempty), Option.bind_some]
    cases toSpec.node to' <;> rfl

variable (input) in
/-- The node that a run is mapped to, as the step `FileAct.move` looks for it. -/
theorem moveTarget_toOption (hunique : (toSpec.nodes.map (·.id)).Nodup) (from' : NodeId) :
    (moveTarget toSpec input from').toOption =
      ((match input.nodeMap.bind (·.lookup from') with
        | some to' => some to'
        | none =>
          if input.nodeMap.isSome ∧ from' = "constructor" then none
          else if (toSpec.node from').isSome then some from' else none : Option NodeId).filter
            (· ≠ "")).bind fun to' => (toSpec.node to').map fun node => (to', node) := by
  unfold moveTarget
  simp only [lastNode_eq_node hunique]
  cases input.nodeMap.bind (·.lookup from') with
  | some to' => exact goesTo_toOption to'
  | none =>
    dsimp only
    split
    · rfl
    · split
      · exact goesTo_toOption from'
      · rfl

/-- **The plan of a run** is the one of the step `FileAct.move`, where nodes have ids of their
own. -/
theorem planMove_eq_planned {fromSpec : JourneySpec}
    (hspec : specOf f.row.version = .ok fromSpec) (hunique : (toSpec.nodes.map (·.id)).Nodup) :
    EnrollmentFile.planMove fromSpec toSpec input.nodeMap f.row f.heldBy.isSome =
      (planned specOf toSpec input f).map (·.plan) := by
  rw [planned, decided, hspec, EnrollmentFile.planMove]
  change (f.at'.bind _) = _
  cases hat : f.at' with
  | none => rfl
  | some from' =>
    have htarget := moveTarget_toOption input hunique from'
    have hdecided : ((Except.ok fromSpec : Except JourneyError JourneySpec).toOption.map
        fun fromSpec => (from', moveVerdict fromSpec toSpec input f from')) =
        some (from', moveVerdict fromSpec toSpec input f from') := rfl
    rw [Option.bind_some, Option.bind_some, hdecided]
    dsimp only at htarget ⊢
    generalize Option.filter (· ≠ "") _ = mapped at htarget ⊢
    cases hok : moveTarget toSpec input from' with
    | error reason =>
      have hverdict : moveVerdict fromSpec toSpec input f from' = .skip reason := by
        rw [moveVerdict, hok]
      have hnone : (mapped.bind fun to' => (toSpec.node to').map fun node => (to', node)) = none :=
        htarget.symm.trans (by rw [hok]; rfl)
      rw [hverdict]
      refine Option.bind_eq_none_iff.2 fun to' hto => ?_
      have hnode := Option.bind_eq_none_iff.1 hnone to' hto
      rw [Option.map_eq_none_iff.1 hnode]
      rfl
    | ok target =>
      have hsome : (mapped.bind fun to' => (toSpec.node to').map fun node => (to', node)) =
          some target := htarget.symm.trans (by rw [hok]; rfl)
      obtain ⟨to', rfl, hnode⟩ := Option.bind_eq_some_iff.1 hsome
      obtain ⟨toNode, htoNode, rfl⟩ := Option.map_eq_some_iff.1 hnode
      rw [Option.bind_some, htoNode, Option.bind_some, moveVerdict, hok]
      dsimp only
      generalize hresumes : decide (to' = from' ∧
        (fromSpec.node from').map (·.type) = some toNode.type) = resumes
      cases resumes with
      | true =>
        rw [if_neg (fun h => h.1 (of_decide_eq_true hresumes)), if_neg (by simp)]
        rfl
      | false =>
        by_cases hstate : f.row.state = .waiting
        · rw [if_pos (show (!false) = true ∧ _ from ⟨rfl, hstate⟩)]
          cases hheld : f.heldBy with
          | none =>
            rw [if_neg (by simp)]
            rfl
          | some held =>
            rw [if_pos ⟨of_decide_eq_false hresumes, hstate, rfl⟩]
            rfl
        · rw [if_neg (fun h => hstate h.2.1), if_neg (fun h => hstate h.2)]
          rfl

end Decision

/-! ### Groups -/

/-- **The groups of a plan**, if its runs move alike where their keys are the same. -/
theorem lookup_groups {plan : List PlannedRun}
    (halike : ∀ p ∈ plan, ∀ q ∈ plan, p.key = q.key → p.plan = q.plan) (key : String) :
    (plan.foldl addToGroup []).lookup key = (plan.find? (·.key = key)).map fun p =>
      ⟨p.plan.to', p.plan.resumes, plan.countP (·.key = key)⟩ := by
  induction plan using List.reverseRecOn with
  | nil => rfl
  | append_singleton plan p ih =>
    have ih := ih fun a ha b hb =>
      halike a (List.mem_append_left _ ha) b (List.mem_append_left _ hb)
    rw [List.foldl_append, List.foldl_cons, List.foldl_nil, addToGroup, List.find?_append,
      List.countP_append]
    by_cases hkey : p.key = key
    · subst hkey
      have hlast : List.countP (·.key = p.key) [p] = 1 := by simp
      rw [lookup_setField_self, ih, hlast]
      cases hfind : plan.find? (·.key = p.key) with
      | none =>
        have hzero : plan.countP (·.key = p.key) = 0 :=
          List.countP_eq_zero.2 fun q hq => List.find?_eq_none.1 hfind q hq
        simp [hzero]
      | some q =>
        have hqp : q.plan = p.plan := halike q
          (List.mem_append_left _ (List.mem_of_find?_eq_some hfind)) p (by simp)
          (by simpa using List.find?_some hfind)
        simp [hqp]
    · have hlast : List.countP (·.key = key) [p] = 0 := by simp [hkey]
      have hnone : List.find? (·.key = key) [p] = none := by simp [hkey]
      rw [lookup_setField_of_ne _ _ (Ne.symm hkey), ih, hlast, hnone, Option.or_none,
        Nat.add_zero]

/-! ### What an answer lists -/

/-- What the answer to a preview lists for a run: the run is one of those asked for, the answer does
not say that it is left out, and there is a group for its version and node. -/
def MoveEnrollmentsResult.listed (answer : MoveEnrollmentsResult) (input : MoveInput)
    (f : EnrollmentFile) : Option EnrollmentFile.PlannedMove :=
  if input.selects f.row ∧ ∀ k ∈ answer.skipped, k.enrollmentId ≠ f.row.id then
    f.at'.bind fun from' =>
      (answer.byNode.lookup (byNodeKey f.row.version from')).map fun group =>
        ⟨f.row.version, from', group.to', group.resumes⟩
  else none

/-- A run after the move that is listed for it. -/
def MoveEnrollmentsResult.carryOut (answer : MoveEnrollmentsResult) (input : MoveInput)
    (now : Instant) (f : EnrollmentFile) : EnrollmentFile :=
  match answer.listed input f with
  | some plan => f.move plan input.toVersion now
  | none => f

/-! ### Plans and tables -/

/-- A plan was made of the runs of a table that were asked for, in some order. -/
structure PlanOf (specOf : Nat → Except JourneyError JourneySpec) (toSpec : JourneySpec)
    (input : MoveInput) (files : List EnrollmentFile) (tally : MoveTally) : Prop where
  distinct : (files.map (·.row.id)).Nodup
  loop : ∃ opens, opens.Perm (files.filter (input.selects ·.row)) ∧
    planRuns specOf toSpec input opens {} = .ok tally

section Plans

variable {specOf : Nat → Except JourneyError JourneySpec} {toSpec : JourneySpec}
  {input : MoveInput} {files : List EnrollmentFile} {tally : MoveTally}

theorem leftOut_eq_some {f : EnrollmentFile} {k : SkippedRun}
    (h : leftOut specOf toSpec input f = some k) :
    k.enrollmentId = f.row.id ∧ planned specOf toSpec input f = none := by
  unfold leftOut at h
  split at h
  · rename_i hdecided
    cases h
    exact ⟨rfl, by rw [planned, hdecided]⟩
  · cases h

namespace PlanOf

variable (h : PlanOf specOf toSpec input files tally)

include h

/-- The run of an id is one. -/
theorem eq_of_id {f g : EnrollmentFile}
    (hf : f ∈ files) (hg : g ∈ files) (hid : f.row.id = g.row.id) : f = g :=
  List.inj_on_of_nodup_map h.distinct hf hg hid

theorem mem_plan {p : PlannedRun} :
    p ∈ tally.plan ↔
      ∃ f ∈ files, input.selects f.row ∧ planned specOf toSpec input f = some p := by
  obtain ⟨opens, hperm, hloop⟩ := h.loop
  rw [(planRuns_eq_ok hloop).1, List.nil_append, List.mem_filterMap]
  simp only [hperm.mem_iff, List.mem_filter, and_assoc]

theorem mem_skipped {k : SkippedRun} :
    k ∈ tally.skipped ↔
      ∃ f ∈ files, input.selects f.row ∧ leftOut specOf toSpec input f = some k := by
  obtain ⟨opens, hperm, hloop⟩ := h.loop
  rw [(planRuns_eq_ok hloop).2.1, List.nil_append, List.mem_filterMap]
  simp only [hperm.mem_iff, List.mem_filter, and_assoc]

/-- Each run at a node was decided on. -/
theorem decided_isSome {f : EnrollmentFile}
    (hf : f ∈ files) (hselects : input.selects f.row) (hat : f.at'.isSome) :
    (decided specOf toSpec input f).isSome := by
  obtain ⟨opens, hperm, hloop⟩ := h.loop
  exact (planRuns_eq_ok hloop).2.2.2 f
    (hperm.mem_iff.2 (List.mem_filter.2 ⟨hf, hselects⟩)) hat

theorem lookup (key : String) :
    tally.byNode.lookup key = (tally.plan.find? (·.key = key)).map fun p =>
      ⟨p.plan.to', p.plan.resumes, tally.plan.countP (·.key = key)⟩ := by
  have halike : ∀ p ∈ tally.plan, ∀ q ∈ tally.plan, p.key = q.key → p.plan = q.plan := by
    intro p hp q hq hkey
    obtain ⟨f, -, -, hf⟩ := h.mem_plan.1 hp
    obtain ⟨g, -, -, hg⟩ := h.mem_plan.1 hq
    exact plan_eq_of_key hf hg hkey
  obtain ⟨opens, -, hloop⟩ := h.loop
  obtain ⟨hplan, -, hgroups, -⟩ := planRuns_eq_ok hloop
  rw [List.nil_append] at hplan
  rw [hgroups, ← hplan]
  exact lookup_groups halike key

/-- The runs of the plan, counted in the table. -/
theorem countP_plan (p : PlannedRun → Bool) :
    tally.plan.countP p = files.countP fun f =>
      (planned specOf toSpec input f).any p && input.selects f.row := by
  obtain ⟨opens, hperm, hloop⟩ := h.loop
  rw [(planRuns_eq_ok hloop).1, List.nil_append, List.countP_filterMap, hperm.countP_eq,
    List.countP_filter]
  refine List.countP_congr fun f _ => ?_
  cases planned specOf toSpec input f <;> rfl

/-- The runs of the plan are different ones. -/
theorem plan_distinct :
    (tally.plan.map (·.enrollmentId)).Nodup := by
  obtain ⟨opens, hperm, hloop⟩ := h.loop
  rw [(planRuns_eq_ok hloop).1, List.nil_append]
  have hopens : (opens.map (·.row.id)).Nodup :=
    (hperm.map _).nodup_iff.2 (h.distinct.sublist (List.filter_sublist.map _))
  clear hperm hloop
  induction opens with
  | nil => exact List.nodup_nil
  | cons f opens ih =>
    rw [List.map_cons, List.nodup_cons] at hopens
    cases hplanned : planned specOf toSpec input f with
    | none =>
      rw [List.filterMap_cons_none hplanned]
      exact ih hopens.2
    | some p =>
      rw [List.filterMap_cons_some hplanned, List.map_cons, List.nodup_cons]
      refine ⟨fun hmem => hopens.1 ?_, ih hopens.2⟩
      obtain ⟨q, hq, hid⟩ := List.mem_map.1 hmem
      obtain ⟨g, hg, hgq⟩ := List.mem_filterMap.1 hq
      rw [← (planned_eq_some hplanned).1, ← hid, (planned_eq_some hgq).1]
      exact List.mem_map_of_mem hg

end PlanOf

/-- **What an answer lists is the plan.** -/
theorem listed_eq (h : PlanOf specOf toSpec input files tally) {answer : MoveEnrollmentsResult}
    (hbyNode : answer.byNode = tally.byNode) (hskipped : answer.skipped = tally.skipped)
    {f : EnrollmentFile} (hf : f ∈ files) :
    answer.listed input f = if input.selects f.row then
      (planned specOf toSpec input f).map (·.plan) else none := by
  rw [MoveEnrollmentsResult.listed, hbyNode, hskipped]
  by_cases hselects : input.selects f.row = true
  · rw [if_pos hselects]
    cases hat : f.at' with
    | none =>
      have hplanned : planned specOf toSpec input f = none := by
        rw [planned, decided, hat]
        rfl
      rw [hplanned, Option.bind_none, ite_self]
      rfl
    | some from' =>
      have hsome := h.decided_isSome hf hselects (by rw [hat]; rfl)
      obtain ⟨⟨from'', verdict⟩, hdecided⟩ := Option.isSome_iff_exists.1 hsome
      cases verdict with
      | skip reason =>
        have hleft : leftOut specOf toSpec input f = some ⟨f.row.id, from'', reason⟩ := by
          rw [leftOut, hdecided]
        have hmem := h.mem_skipped.2 ⟨f, hf, hselects, hleft⟩
        rw [if_neg fun hnot => hnot.2 _ hmem rfl, (leftOut_eq_some hleft).2]
        rfl
      | move to' resumes =>
        obtain ⟨p, hplanned⟩ : ∃ p, planned specOf toSpec input f = some p := by
          rw [planned, hdecided]
          exact ⟨_, rfl⟩
        obtain ⟨-, hversion, hat', -⟩ := planned_eq_some hplanned
        obtain rfl : from' = p.plan.currentNode := Option.some.inj (hat.symm.trans hat')
        -- No run of this id was left out.
        have hnot : ∀ k ∈ tally.skipped, k.enrollmentId ≠ f.row.id := by
          intro k hk hid
          obtain ⟨g, hg, -, hleft⟩ := h.mem_skipped.1 hk
          obtain ⟨hkid, hnone⟩ := leftOut_eq_some hleft
          obtain rfl := h.eq_of_id hg hf (hkid.symm.trans hid)
          rw [hplanned] at hnone
          cases hnone
        have hmem := h.mem_plan.2 ⟨f, hf, hselects, hplanned⟩
        have hlookup := h.lookup p.key
        rw [if_pos ⟨hselects, hnot⟩, hplanned, Option.bind_some, ← hversion]
        rw [PlannedRun.key] at hlookup
        rw [hlookup]
        cases hfind : tally.plan.find? (·.key = p.key) with
        | none => simpa using List.find?_eq_none.1 hfind _ hmem
        | some q =>
          have hkey : q.key = p.key := by simpa using List.find?_some hfind
          obtain ⟨g, -, -, hg⟩ := h.mem_plan.1 (List.mem_of_find?_eq_some hfind)
          have hplan := plan_eq_of_key hg hplanned hkey
          rw [PlannedRun.key] at hfind
          rw [hfind, Option.map_some, Option.map_some, Option.map_some, hplan]
  · rw [if_neg hselects, if_neg fun hboth => hselects hboth.1]

end Plans

/-! ### The moves -/

@[simp]
theorem row_id_move (f : EnrollmentFile) (plan : EnrollmentFile.PlannedMove) (toVersion : Nat)
    (now : Instant) : (f.move plan toVersion now).row.id = f.row.id := by
  unfold EnrollmentFile.move
  split
  · rfl
  · dsimp only
    split <;> rfl

/-- A run that is where the plan found it moves. -/
theorem move_of_stillAt {f : EnrollmentFile} {plan : EnrollmentFile.PlannedMove}
    (h : f.stillAt plan = true) (toVersion : Nat) (now : Instant) :
    (f.move plan toVersion now).row.version = toVersion ∧
      (plan.resumes = true → plan.to' = plan.currentNode →
        (f.move plan toVersion now).row.currentNode = some plan.to' ∧
        (f.move plan toVersion now).row.state = f.row.state ∧
        (f.move plan toVersion now).waits = f.waits ∧
        (f.move plan toVersion now).steps = f.steps) ∧
      (plan.resumes = false →
        (f.move plan toVersion now).row.currentNode = some plan.to' ∧
        (f.move plan toVersion now).row.state = .active ∧
        (f.move plan toVersion now).openWaits = [] ∧
        ∀ s ∈ (f.move plan toVersion now).steps, s.status.isOpen = false) := by
  simp only [EnrollmentFile.stillAt, Bool.and_eq_true, decide_eq_true_eq] at h
  obtain ⟨⟨hversion, hcurrent⟩, hopen⟩ := h
  have hguard : ¬ (decide (f.row.version ≠ plan.version) ||
      decide (f.row.currentNode ≠ some plan.currentNode) || !f.row.state.isOpen) = true := by
    simp [hversion, hcurrent, hopen]
  rw [EnrollmentFile.move, if_neg hguard]
  cases hresumes : plan.resumes with
  | true =>
    rw [if_pos rfl]
    refine ⟨rfl, fun _ hto => ⟨?_, rfl, rfl, rfl⟩, fun h => absurd h (by decide)⟩
    rw [hto]
    exact hcurrent
  | false =>
    rw [if_neg Bool.false_ne_true]
    refine ⟨rfl, fun h => absurd h (by decide), fun _ =>
      ⟨rfl, rfl, openWaits_cancelWaits f now, fun s hs => ?_⟩⟩
    obtain ⟨r, -, rfl⟩ := List.mem_map.1 hs
    split
    · rfl
    · simp_all

/-- **The moves of a plan** of different runs, all of which are still where it found them. -/
theorem foldl_move {toVersion : Nat} {now : Instant} {plan : List PlannedRun}
    (hdistinct : (plan.map (·.enrollmentId)).Nodup) {s : MoveProgress}
    (hstill : ∀ p ∈ plan, ∃ f, s.files.find? (·.row.id = p.enrollmentId) = some f ∧
      f.stillAt p.plan = true) :
    plan.foldl (MoveProgress.move toVersion now) s = {
      files := plan.foldl (editAt (·.row.id) (·.enrollmentId)
        fun p f => f.move p.plan toVersion now) s.files
      skipped := s.skipped
      moved := s.moved + plan.length } := by
  induction plan generalizing s with
  | nil => rfl
  | cons p plan ih =>
    rw [List.map_cons, List.nodup_cons] at hdistinct
    obtain ⟨f, hfind, hf⟩ := hstill p List.mem_cons_self
    have hstep : s.move toVersion now p = {
        files := editAt (·.row.id) (·.enrollmentId) (fun p f => f.move p.plan toVersion now)
          s.files p
        skipped := s.skipped
        moved := s.moved + 1 } := by
      rw [MoveProgress.move, hfind]
      exact if_pos hf
    rw [List.foldl_cons, hstep, ih hdistinct.2 ?_, List.length_cons, Nat.add_assoc,
      Nat.add_comm 1, List.foldl_cons]
    -- The other runs are where they were.
    intro q hq
    obtain ⟨g, hg, hgstill⟩ := hstill q (List.mem_cons_of_mem _ hq)
    have hne : q.enrollmentId ≠ p.enrollmentId := fun heq =>
      hdistinct.1 (heq ▸ List.mem_map_of_mem hq)
    have hgid : g.row.id = q.enrollmentId := by simpa using List.find?_some hg
    refine ⟨g, ?_, hgstill⟩
    rw [editAt, List.find?_map]
    have hsame : ((fun h : EnrollmentFile => decide (h.row.id = q.enrollmentId)) ∘
        fun h => if h.row.id = p.enrollmentId then h.move p.plan toVersion now else h) =
        fun h => decide (h.row.id = q.enrollmentId) := by
      funext h
      rw [Function.comp_apply]
      split <;> simp
    rw [hsame, hg, Option.map_some, if_neg (hgid ▸ hne)]

/-! ### The call -/

/-- The plan does not read the fingerprint. -/
theorem previewMoves_fingerprint (P : Platform) (byId : String → String → Bool) (org : Org)
    (runs : JourneyRuns) (input : MoveInput) (fingerprint : Option String) :
    previewMoves P byId org runs { input with fingerprint } =
      previewMoves P byId org runs input := by
  have hloop (specOf : Nat → Except JourneyError JourneySpec) (toSpec : JourneySpec)
      (fs : List EnrollmentFile) (tally : MoveTally) :
      planRuns specOf toSpec { input with fingerprint } fs tally =
        planRuns specOf toSpec input fs tally := by
    induction fs generalizing tally with
    | nil => rfl
    | cons f fs ih =>
      rw [planRuns, planRuns]
      cases f.at' with
      | none => exact ih tally
      | some from' => exact congrArg (specOf f.row.version >>= ·) (funext fun _ => ih _)
  unfold previewMoves
  simp only [hloop]
  rfl

/-- A plan's fingerprint is a text with characters. -/
theorem truthy_moveFingerprint (P : Platform) (input : MoveInput) (plan : List PlannedRun) :
    truthy (some (moveFingerprint P.sha256Hex input plan)) = true := by
  rw [truthy, bne_iff_ne]
  intro hempty
  have hlen := congrArg (fun s => s.toList.length) hempty
  simp [moveFingerprint, jsTake, P.sha256Hex_length] at hlen

/-- What a preview has found. -/
theorem previewMoves_eq_ok {P : Platform} {byId : String → String → Bool} {org : Org}
    {runs : JourneyRuns} {input : MoveInput} {tally : MoveTally} {answer : MoveEnrollmentsResult}
    (hids : (runs.files.map (·.row.id)).Nodup)
    (h : previewMoves P byId org runs input = .ok (tally, answer)) :
    ∃ journey toSpec, org.load input.journeyId = .ok journey ∧
      journey.spec P input.toVersion = .ok toSpec ∧
      PlanOf (journey.spec P) toSpec input runs.files tally ∧
      answer = tally.answer P.sha256Hex input := by
  obtain ⟨journey, hload, h⟩ := bind_eq_ok.1 h
  obtain ⟨-, -, h⟩ := bind_eq_ok.1 h
  obtain ⟨toSpec, hspec, h⟩ := bind_eq_ok.1 h
  obtain ⟨t, hloop, h⟩ := bind_eq_ok.1 h
  cases h
  exact ⟨journey, toSpec, hload, hspec, ⟨hids, _, List.mergeSort_perm _ _, hloop⟩, rfl⟩

/-! ### The law -/

/-- What a confirmed call did to the runs, in terms of the answer to its preview. -/
structure AppliesAsListed (P : Platform) (journey : Journey) (toSpec : JourneySpec)
    (input : MoveInput) (now : Instant) (before after : List EnrollmentFile)
    (answer : MoveEnrollmentsResult) : Prop where
  /-- Each run moves as it is listed; those that are not listed stay as they are. -/
  files : after = before.map (answer.carryOut input now)
  /-- The answer counts the listed runs, -/
  movable : answer.movable = before.countP fun f => (answer.listed input f).isSome
  /-- and those of each group. -/
  groups : ∀ key group, answer.byNode.lookup key = some group → 0 < group.count ∧
    group.count = before.countP fun f => (answer.listed input f).any fun plan =>
      byNodeKey plan.version plan.currentNode = key
  /-- A listed run is on the version afterwards, at the listed node. -/
  moved : ∀ f ∈ before, ∀ plan, answer.listed input f = some plan →
    (toSpec.lastNode plan.to').isSome ∧
      (answer.carryOut input now f).row.version = input.toVersion ∧
      (answer.carryOut input now f).row.currentNode = some plan.to'
  /-- The rows of a run that the answer leaves out stay as they are. -/
  skipped : ∀ f ∈ before, ∀ k ∈ answer.skipped, k.enrollmentId = f.row.id →
    answer.carryOut input now f = f
  /-- A run that waits for a proposal, an agent or an approval is listed for its own step only, -/
  held : ∀ f ∈ before, f.row.state = .waiting → f.heldBy.isSome → ∀ plan,
    answer.listed input f = some plan → plan.resumes = true
  /-- and a run that is listed so finds a node of the same type there, and goes on as it was. -/
  resumed : ∀ f ∈ before, ∀ plan, answer.listed input f = some plan → plan.resumes = true →
    plan.to' = plan.currentNode ∧
      (∃ fromSpec, journey.spec P f.row.version = .ok fromSpec ∧
        (fromSpec.node plan.currentNode).map (·.type) =
          (toSpec.lastNode plan.to').map (·.type)) ∧
      (answer.carryOut input now f).row.state = f.row.state ∧
      (answer.carryOut input now f).waits = f.waits ∧
      (answer.carryOut input now f).steps = f.steps
  /-- Another one starts at its node afresh. -/
  restarted : ∀ f ∈ before, ∀ plan, answer.listed input f = some plan → plan.resumes = false →
    (answer.carryOut input now f).row.state = .active ∧
      (answer.carryOut input now f).openWaits = [] ∧
      ∀ s ∈ (answer.carryOut input now f).steps, s.status.isOpen = false
  /-- What holds of a run and its waits still holds. -/
  waits : ∀ late, ∀ f ∈ before, WaitsOk late f → WaitsOk late (answer.carryOut input now f)

/-- A run that goes on somewhere does so at a node of the version. -/
theorem moveTarget_eq_ok {toSpec : JourneySpec} {input : MoveInput} {from' to' : NodeId}
    {toNode : JourneyNode} (h : moveTarget toSpec input from' = .ok (to', toNode)) :
    toSpec.lastNode to' = some toNode := by
  unfold moveTarget at h
  dsimp only at h
  split at h
  · split at h
    · cases h
    · split at h
      · cases h
        assumption
      · cases h
  · split at h
    · cases h
    · split at h
      · split at h
        · cases h
        · split at h
          · cases h
            assumption
          · cases h
      · cases h

section Law

variable {P : Platform} {journey : Journey} {toSpec : JourneySpec} {input : MoveInput}
  {files : List EnrollmentFile} {tally : MoveTally} {answer : MoveEnrollmentsResult}

namespace PlanOf

variable {f : EnrollmentFile}

/-- A run of the plan is where the plan found it. -/
theorem stillAt_of_planned (hselects : input.selects f.row = true)
    {p : PlannedRun} (hplanned : planned (journey.spec P) toSpec input f = some p) :
    f.stillAt p.plan = true := by
  obtain ⟨-, hversion, hat, -⟩ := planned_eq_some hplanned
  have hcurrent : f.row.currentNode = some p.plan.currentNode :=
    (Option.filter_eq_some_iff.1 hat).1
  simp only [MoveInput.selects, Bool.and_eq_true] at hselects
  simp [EnrollmentFile.stillAt, hversion, hcurrent, hselects.1.1.2]

variable (h : PlanOf (journey.spec P) toSpec input files tally)
  (hbyNode : answer.byNode = tally.byNode) (hskipped : answer.skipped = tally.skipped)

include h hbyNode hskipped

/-- A listed run is one of the plan. -/
theorem of_listed (hf : f ∈ files) {plan : EnrollmentFile.PlannedMove}
    (hlisted : answer.listed input f = some plan) :
    ∃ p, planned (journey.spec P) toSpec input f = some p ∧ p.plan = plan ∧
      f.stillAt plan = true := by
  rw [listed_eq h hbyNode hskipped hf] at hlisted
  split at hlisted
  · rename_i hselects
    obtain ⟨p, hplanned, rfl⟩ := Option.map_eq_some_iff.1 hlisted
    exact ⟨p, hplanned, rfl, stillAt_of_planned hselects hplanned⟩
  · cases hlisted

/-- The move of a run that is listed is the one of the plan. -/
theorem edited_eq_carryOut (now : Instant) (hf : f ∈ files) :
    edited (·.row.id) (·.enrollmentId) (fun p g => g.move p.plan input.toVersion now)
      tally.plan f = answer.carryOut input now f := by
  rw [edited, MoveEnrollmentsResult.carryOut, listed_eq h hbyNode hskipped hf]
  cases hfind : tally.plan.find? (·.enrollmentId = f.row.id) with
  | none =>
    split
    · rename_i plan hlisted
      split at hlisted
      · rename_i hselects
        obtain ⟨p, hplanned, rfl⟩ := Option.map_eq_some_iff.1 hlisted
        have hmem := h.mem_plan.2 ⟨f, hf, hselects, hplanned⟩
        exact absurd (decide_eq_true (planned_eq_some hplanned).1)
          (List.find?_eq_none.1 hfind p hmem)
      · cases hlisted
    · rfl
  | some p =>
    have hid : p.enrollmentId = f.row.id := by simpa using List.find?_some hfind
    obtain ⟨g, hg, hselects, hplanned⟩ := h.mem_plan.1 (List.mem_of_find?_eq_some hfind)
    obtain rfl := h.eq_of_id hg hf ((planned_eq_some hplanned).1.symm.trans hid)
    rw [if_pos hselects, hplanned]
    rfl

variable (answer) in
/-- The moves of the plan find each run, and make of it what is listed. -/
theorem foldl_move (now : Instant) :
    tally.plan.foldl (MoveProgress.move input.toVersion now)
        { files, skipped := tally.skipped } = {
      files := files.map (answer.carryOut input now)
      skipped := tally.skipped
      moved := tally.plan.length } := by
  rw [Munin.foldl_move h.plan_distinct, foldl_editAt (fun _ _ => row_id_move _ _ _ _)
    h.plan_distinct, Nat.zero_add]
  · congr 1
    exact List.map_congr_left fun f hf => h.edited_eq_carryOut hbyNode hskipped now hf
  · intro p hp
    obtain ⟨f, hf, hselects, hplanned⟩ := h.mem_plan.1 hp
    have hid := (planned_eq_some hplanned).1
    refine ⟨f, ?_, stillAt_of_planned hselects hplanned⟩
    cases hfind : files.find? (·.row.id = p.enrollmentId) with
    | none => exact absurd (decide_eq_true hid.symm) (List.find?_eq_none.1 hfind f hf)
    | some g =>
      have hgid : g.row.id = p.enrollmentId := by simpa using List.find?_some hfind
      exact congrArg some
        (h.eq_of_id (List.mem_of_find?_eq_some hfind) hf (hgid.trans hid))

variable (answer) in
/-- **The moves of a plan** are those that are listed. -/
theorem appliesAsListed (hmovable : answer.movable = tally.plan.length) (now : Instant) :
    AppliesAsListed P journey toSpec input now files
      (files.map (answer.carryOut input now)) answer where
  files := rfl
  movable := by
    rw [hmovable, ← List.countP_true, h.countP_plan]
    refine List.countP_congr fun f hf => ?_
    rw [listed_eq h hbyNode hskipped hf]
    cases hselects : input.selects f.row <;>
      cases planned (journey.spec P) toSpec input f <;> simp
  groups key group hgroup := by
    rw [hbyNode, h.lookup] at hgroup
    obtain ⟨p, hfind, rfl⟩ := Option.map_eq_some_iff.1 hgroup
    have hkey : p.key = key := by simpa using List.find?_some hfind
    refine ⟨List.countP_pos_iff.2 ⟨p, List.mem_of_find?_eq_some hfind, by simpa using hkey⟩, ?_⟩
    dsimp only
    rw [h.countP_plan]
    refine List.countP_congr fun f hf => ?_
    rw [listed_eq h hbyNode hskipped hf]
    cases planned (journey.spec P) toSpec input f with
    | none => simp
    | some q =>
      cases input.selects f.row with
      | false => simp
      | true =>
        rw [if_pos rfl, Option.any_some, Bool.and_true]
        rfl
  moved f hf plan hlisted := by
    obtain ⟨p, hplanned, rfl, hstill⟩ := h.of_listed hbyNode hskipped hf hlisted
    obtain ⟨-, -, -, fromSpec, toNode, -, htarget, hresumes, -⟩ := planned_eq_some hplanned
    obtain ⟨hversion, hkeeps, hstarts⟩ := move_of_stillAt hstill input.toVersion now
    rw [MoveEnrollmentsResult.carryOut, hlisted]
    refine ⟨by rw [moveTarget_eq_ok htarget]; rfl, hversion, ?_⟩
    cases hres : p.plan.resumes with
    | true =>
      rw [hres] at hresumes
      exact (hkeeps hres (of_decide_eq_true hresumes.symm).1).1
    | false => exact (hstarts hres).1
  skipped f hf k hk hid := by
    have hnone : answer.listed input f = none := if_neg fun hboth => hboth.2 k hk hid
    rw [MoveEnrollmentsResult.carryOut, hnone]
  held f hf hstate hheld plan hlisted := by
    obtain ⟨p, hplanned, rfl, -⟩ := h.of_listed hbyNode hskipped hf hlisted
    obtain ⟨-, -, -, -, -, -, -, -, hfree⟩ := planned_eq_some hplanned
    by_contra hres
    rw [hfree (Bool.eq_false_of_not_eq_true hres) hstate] at hheld
    cases hheld
  resumed f hf plan hlisted hres := by
    obtain ⟨p, hplanned, rfl, hstill⟩ := h.of_listed hbyNode hskipped hf hlisted
    obtain ⟨-, -, -, fromSpec, toNode, hspec, htarget, hresumes, -⟩ := planned_eq_some hplanned
    rw [hres] at hresumes
    obtain ⟨hto, htype⟩ := of_decide_eq_true hresumes.symm
    obtain ⟨-, hkeeps, -⟩ := move_of_stillAt hstill input.toVersion now
    rw [MoveEnrollmentsResult.carryOut, hlisted]
    refine ⟨hto, ⟨fromSpec, hspec, ?_⟩, (hkeeps hres hto).2⟩
    rw [htype, moveTarget_eq_ok htarget]
    rfl
  restarted f hf plan hlisted hres := by
    obtain ⟨p, -, rfl, hstill⟩ := h.of_listed hbyNode hskipped hf hlisted
    rw [MoveEnrollmentsResult.carryOut, hlisted]
    exact ((move_of_stillAt hstill input.toVersion now).2.2 hres).2
  waits late f _ hwaits := by
    unfold MoveEnrollmentsResult.carryOut
    split
    · exact waitsOk_move hwaits _ _ _
    · exact hwaits

end PlanOf

end Law

/-- **A preview, and then its confirmation with nothing changed in between**: the preview writes
nothing, and the confirmed call moves the runs that it listed, to the nodes that it listed. -/
theorem moves_as_previewed (P : Platform) (byId : String → String → Bool) (org : Org)
    (runs : JourneyRuns) (input : MoveInput) (earlier now : Instant)
    (hids : (runs.files.map (·.row.id)).Nodup) (answer : MoveEnrollmentsResult)
    (after : JourneyRuns)
    (hpreview : moveEnrollments P byId org runs { input with fingerprint := none } earlier =
      .ok (answer, after)) :
    after = runs ∧ answer.moved = 0 ∧ answer.applied = false ∧
      ∃ journey toSpec confirmed, org.load input.journeyId = .ok journey ∧
        journey.spec P input.toVersion = .ok toSpec ∧
        moveEnrollments P byId org after { input with fingerprint := some answer.fingerprint } now =
          .ok ({ answer with moved := answer.movable, applied := true }, confirmed) ∧
        AppliesAsListed P journey toSpec input now runs.files confirmed.files answer := by
  rw [moveEnrollments, previewMoves_fingerprint] at hpreview
  obtain ⟨⟨tally, result⟩, hplan, hpreview⟩ := bind_eq_ok.1 hpreview
  cases hpreview
  obtain ⟨journey, toSpec, hload, hspec, hof, rfl⟩ := previewMoves_eq_ok hids hplan
  have hlaw := hof.appliesAsListed (tally.answer P.sha256Hex input) rfl rfl rfl now
  let answer := tally.answer P.sha256Hex input
  refine ⟨rfl, rfl, rfl, journey, toSpec, {
    files := runs.files.map (answer.carryOut input now)
    emitted := runs.emitted ++ [{
      journeyId := input.journeyId, toVersion := input.toVersion
      moved := tally.plan.length, skipped := tally.skipped.length }] }, hload, hspec, ?_, hlaw⟩
  have htruthy : truthy (some (tally.answer P.sha256Hex input).fingerprint) = true :=
    truthy_moveFingerprint P input tally.plan
  rw [moveEnrollments, previewMoves_fingerprint, hplan, ok_bind]
  dsimp only
  rw [htruthy, if_neg (by decide), require_pos rfl, ok_bind,
    hof.foldl_move (tally.answer P.sha256Hex input) rfl rfl]
  rfl

/-! ### A sample -/

/-- A journey with two published versions of one email. -/
def sampleMoveJourney : Journey where
  id := "j1"
  status := .live
  liveVersion := some 2
  versions := [
    { number := 1, spec := oneEmail, specHash := "h", publishedAt := some 0 },
    { number := 2, spec := oneEmail, specHash := "h", publishedAt := some 10 }]

/-- A run of the first version whose email waits for its review. -/
def sampleHeldRun : EnrollmentFile where
  row := {
    id := "e1"
    journeyId := "j1"
    version := 1
    subjectKey := "c1"
    state := .waiting
    currentNode := some "mail"
    visits := [("mail", .count 1)] }
  steps := [{
    id := 1
    nodeId := "mail"
    nodeType := some .message
    version := 1
    visit := 1
    status := .waiting }]
  waits := [{ id := 2, stepRunId := 1, kind := .proposal, createdAt := 5 }]
  nextId := 3

/-- All open runs are to go on in the second version. -/
def sampleMoveInput : MoveInput where
  journeyId := "j1"
  toVersion := 2

/-- The email and what follows it, as the samples' specs are read. -/
def sampleEmailSpec : JourneySpec where
  entry := { trigger := .manual }
  goal := some { event := "won", windowDays := 7 }
  start := "mail"
  nodes := [
    .message {
      id := "mail"
      content := { subject := some "Hi", body := "Hi" }
      approval := .auto
      next := some "done" },
    .exit { id := "done" }]

/-- The plan of the sample. -/
def sampleMoveTally : MoveTally where
  plan := [⟨"e1", 1, "mail", "mail", true⟩]
  byNode := [("v1:mail", ⟨"mail", true, 1⟩)]

/-- What the preview of the sample tells. -/
def sampleMoveAnswer : MoveEnrollmentsResult where
  toVersion := 2
  fingerprint := "e3b0c44298fc1c149afbf4c8996fb924"
  movable := 1
  byNode := [("v1:mail", ⟨"mail", true, 1⟩)]
  skipped := []

theorem sampleMoveJourney_spec (version : Nat) (h : version = 1 ∨ version = 2) :
    sampleMoveJourney.spec samplePlatform version = .ok sampleEmailSpec := by
  rcases h with rfl | rfl <;> rfl

theorem sampleMove_plan : planRuns (sampleMoveJourney.spec samplePlatform) sampleEmailSpec
    sampleMoveInput [sampleHeldRun] {} = .ok sampleMoveTally := by
  have hspec : sampleMoveJourney.spec samplePlatform sampleHeldRun.row.version =
      .ok sampleEmailSpec := sampleMoveJourney_spec 1 (.inl rfl)
  have hat : sampleHeldRun.at' = some "mail" := by decide
  have hverdict : moveVerdict sampleEmailSpec sampleEmailSpec sampleMoveInput sampleHeldRun "mail" =
      .move "mail" true := by decide
  rw [planRuns, hat]
  dsimp only
  rw [hspec, ok_bind, hverdict, planRuns]
  congr 1

theorem sampleMove_previewMoves : previewMoves samplePlatform (fun a b => utf16 a ≤ utf16 b)
    { journeys := [sampleMoveJourney] } { files := [sampleHeldRun] } sampleMoveInput =
      .ok (sampleMoveTally, sampleMoveAnswer) := by
  have hopen : List.mergeSort ([sampleHeldRun].filter (sampleMoveInput.selects ·.row))
      (fun f g => decide (utf16 f.row.id ≤ utf16 g.row.id)) = [sampleHeldRun] :=
    List.mergeSort_singleton _
  have hload : Org.load { journeys := [sampleMoveJourney] } sampleMoveInput.journeyId =
      .ok sampleMoveJourney := rfl
  have hanswer : sampleMoveTally.answer samplePlatform.sha256Hex sampleMoveInput =
      sampleMoveAnswer := by decide +kernel
  have hspec : sampleMoveJourney.spec samplePlatform sampleMoveInput.toVersion =
      .ok sampleEmailSpec := sampleMoveJourney_spec 2 (.inr rfl)
  rw [previewMoves, hload, ok_bind, require_pos (by decide), ok_bind, hspec, ok_bind]
  dsimp only
  rw [hopen, sampleMove_plan, ok_bind, hanswer]
  rfl

theorem moves_as_previewed_sample :
    ∃ journey toSpec confirmed, Org.load { journeys := [sampleMoveJourney] } "j1" = .ok journey ∧
      journey.spec samplePlatform 2 = .ok toSpec ∧
      moveEnrollments samplePlatform (fun a b => utf16 a ≤ utf16 b)
          { journeys := [sampleMoveJourney] } { files := [sampleHeldRun] }
          { sampleMoveInput with fingerprint := some sampleMoveAnswer.fingerprint } 20 =
        .ok ({ sampleMoveAnswer with moved := 1, applied := true }, confirmed) ∧
      AppliesAsListed samplePlatform journey toSpec sampleMoveInput 20 [sampleHeldRun]
        confirmed.files sampleMoveAnswer :=
  (moves_as_previewed samplePlatform (fun a b => utf16 a ≤ utf16 b)
    { journeys := [sampleMoveJourney] } { files := [sampleHeldRun] } sampleMoveInput 10 20
    (by decide) sampleMoveAnswer { files := [sampleHeldRun] } (by
      rw [moveEnrollments, previewMoves_fingerprint, sampleMove_previewMoves]
      rfl)).2.2.2

/-- **A run that waits for a review moves**, if the other version has its step. -/
theorem held_run_moves : ¬ ∀ (P : Platform) (byId : String → String → Bool) (org : Org)
    (runs after : JourneyRuns) (input : MoveInput) (now : Instant) (answer : MoveEnrollmentsResult),
    (runs.files.map (·.row.id)).Nodup →
    moveEnrollments P byId org runs input now = .ok (answer, after) →
    ∀ f ∈ runs.files, f.row.state = .waiting → f.heldBy.isSome → f ∈ after.files := by
  intro hnever
  have hmoved : moveEnrollments samplePlatform (fun a b => utf16 a ≤ utf16 b)
      { journeys := [sampleMoveJourney] } { files := [sampleHeldRun] }
      { sampleMoveInput with fingerprint := some sampleMoveAnswer.fingerprint } 20 =
        .ok ({ sampleMoveAnswer with moved := 1, applied := true }, {
          files := [sampleHeldRun.move ⟨1, "mail", "mail", true⟩ 2 20]
          emitted := [{ journeyId := "j1", toVersion := 2, moved := 1, skipped := 0 }] }) := by
    rw [moveEnrollments, previewMoves_fingerprint, sampleMove_previewMoves]
    rfl
  have hmem := hnever _ _ _ _ _ _ _ _ (by decide) hmoved sampleHeldRun (List.mem_singleton.2 rfl)
    rfl (by decide)
  have hversion := congrArg (·.row.version) (List.mem_singleton.1 hmem)
  exact absurd hversion (by decide)

end Munin
