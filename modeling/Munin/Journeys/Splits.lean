import Munin.Journeys.Runtime.Replay
import Munin.Journeys.Simulator

/-!
# Splits

A split sends each subject down one of its paths, by the bucket of a hash. It may name a control
path and the size of a sample; once so many have been sent on by their buckets, everybody takes the
control path.

* **`pathIndex`** — the place of the path that a bucket leads to.
* **`Divides`** — the law: a path has as many of the hundred buckets as its percentage, and every
  subject takes the path of its bucket, again and again and in the simulator, until the sample is
  full.
* **`split_divides`** — the law holds of every split of a valid spec.
* **`split_moves`** — the path of a subject is another one once the sample is full, and then not the
  simulator's.
-/

namespace Munin

open Foundations

/-! ### Buckets -/

/-- The place of the path that `pathOfBucket` finds. -/
def pathIndex (bucket : Nat) : Nat → List SplitPath → Nat
  | _, [] => 0
  | cumulative, p :: ps =>
    if bucket < cumulative + p.percent then 0 else pathIndex bucket (cumulative + p.percent) ps + 1

variable {ps : List SplitPath}

theorem getElem?_pathIndex {bucket cumulative : Nat}
    (hle : cumulative ≤ bucket) (h : bucket < cumulative + (ps.map (·.percent)).sum) :
    ps[pathIndex bucket cumulative ps]? = pathOfBucket bucket cumulative ps ∧
      pathIndex bucket cumulative ps < ps.length := by
  induction ps generalizing cumulative with
  | nil =>
    rw [List.map_nil, List.sum_nil] at h
    omega
  | cons p ps ih =>
    rw [List.map_cons, List.sum_cons] at h
    unfold pathIndex pathOfBucket
    by_cases hp : bucket < cumulative + p.percent
    · rw [if_pos hp, if_pos hp]
      exact ⟨rfl, Nat.succ_pos _⟩
    · obtain ⟨hpath, hlt⟩ := ih (Nat.le_of_not_lt hp) (by omega)
      rw [if_neg hp, if_neg hp, List.getElem?_cons_succ, hpath]
      refine ⟨?_, Nat.succ_lt_succ hlt⟩
      rw [← hpath, List.getElem?_eq_getElem hlt]

/-- A path has the buckets from the percentages before it on. -/
theorem pathIndex_eq_iff {bucket cumulative : Nat} {i : Nat} {p : SplitPath}
    (hp : ps[i]? = some p) (hbucket : cumulative ≤ bucket) :
    pathIndex bucket cumulative ps = i ↔
      cumulative + ((ps.take i).map (·.percent)).sum ≤ bucket ∧
        bucket < cumulative + ((ps.take i).map (·.percent)).sum + p.percent := by
  induction ps generalizing cumulative i with
  | nil => cases hp
  | cons q ps ih =>
    unfold pathIndex
    cases i with
    | zero =>
      obtain rfl : q = p := Option.some.inj hp
      rw [List.take_zero, List.map_nil, List.sum_nil, Nat.add_zero]
      split
      · rename_i hlt
        exact iff_of_true rfl ⟨hbucket, hlt⟩
      · rename_i hge
        exact iff_of_false (Nat.succ_ne_zero _) fun h => hge h.2
    | succ i =>
      rw [List.take_succ_cons, List.map_cons, List.sum_cons]
      split
      · rename_i hlt
        refine iff_of_false (Nat.succ_ne_zero i).symm fun h => ?_
        have hle := h.1
        omega
      · rename_i hge
        rw [Nat.add_right_cancel_iff, ih hp (Nat.le_of_not_lt hge), Nat.add_assoc cumulative]

/-- So many numbers are in an interval. -/
theorem countP_interval {a w n : Nat} (h : a + w ≤ n) :
    (List.range n).countP (fun b => decide (a ≤ b ∧ b < a + w)) = w := by
  induction n generalizing w with
  | zero =>
    obtain rfl : w = 0 := by omega
    rfl
  | succ n ih =>
    rcases Nat.eq_zero_or_pos w with rfl | hw
    · refine List.countP_eq_zero.2 fun b _ hb => ?_
      have hb := of_decide_eq_true hb
      omega
    rw [List.range_succ, List.countP_append, List.countP_singleton]
    by_cases hlast : a ≤ n ∧ n < a + w
    · obtain ⟨v, rfl⟩ : ∃ v, w = v + 1 := ⟨w - 1, by omega⟩
      have hbelow : (List.range n).countP (fun b => decide (a ≤ b ∧ b < a + (v + 1))) =
          (List.range n).countP fun b => decide (a ≤ b ∧ b < a + v) := by
        refine List.countP_congr fun b hb => ?_
        have hb := List.mem_range.1 hb
        simp only [decide_eq_true_eq]
        omega
      rw [hbelow, ih (by omega), if_pos (decide_eq_true hlast)]
    · rw [ih (by omega), if_neg fun h => hlast (of_decide_eq_true h), Nat.add_zero]

/-! ### The law -/

/-- The place of the path that the bucket of a subject leads to. -/
def SplitNode.index (n : SplitNode) (bucket : Nat) : Nat := pathIndex bucket 0 n.paths

/-- The outcome of a path that is taken by its bucket. -/
def SplitPath.outcome (path : SplitPath) (bucket : Nat) : Outcome :=
  .advance path.name path.next (some [("bucket", .num (.ofNat bucket))]) none

/-- **The law** of a split. -/
structure SplitNode.Divides (n : SplitNode) : Prop where
  /-- A path has as many buckets as its percentage. -/
  exact' : ∀ i p, n.paths[i]? = some p →
    (List.range 100).countP (fun bucket => decide (n.index bucket = i)) = p.percent
  /-- Every subject has a path, that of its bucket, whenever it comes before the sample is full. -/
  routes : ∀ env step, n.sampleFull env.splitArrivals = none →
    ∃ path, n.paths[n.index (splitBucket step.enrollment n)]? = some path ∧
      executeSplit env step n = .ok (path.outcome (splitBucket step.enrollment n))
  /-- Afterwards it takes the control path. -/
  full : ∀ env step control, n.sampleFull env.splitArrivals = some control →
    control ∈ n.paths ∧ ∃ output, executeSplit env step n =
      .ok (.advance control.name control.next output none)
  /-- A subject takes the same path again. -/
  again : ∀ env env' step step', n.sampleFull env.splitArrivals = none →
    n.sampleFull env'.splitArrivals = none →
    step'.enrollment.subjectKey = step.enrollment.subjectKey →
    step'.enrollment.journeyId = step.enrollment.journeyId →
    executeSplit env' step' n = executeSplit env step n
  /-- If the paths have different names, the label of a step leads back to its path. -/
  replayed : (n.paths.map (·.name)).Nodup → ∀ env step edge to' output reason,
    executeSplit env step n = .ok (.advance edge to' output reason) →
    edgeTarget (.split n) edge = to'
  /-- The simulator sends the subject down the path of the runtime. -/
  simulated : ∀ env step facts spec contact, n.sampleFull env.splitArrivals = none →
    step.enrollment.subjectKey = sampleKey contact →
    ∃ path : SplitPath,
      executeSplit env step n = .ok (path.outcome (splitBucket step.enrollment n)) ∧
      (simulateStep facts spec step.enrollment.journeyId (.split n) contact).move =
        .edge path.name (some path.next)

section

variable {n : SplitNode}

theorem splitBucket_lt (enrollment : Enrollment) (n : SplitNode) : splitBucket enrollment n < 100 :=
  stableBucket_lt _

theorem exists_path (hsum : (n.paths.map (·.percent)).sum = 100) {bucket : Nat}
    (hbucket : bucket < 100) : ∃ path, n.paths[n.index bucket]? = some path ∧
      pathOfBucket bucket 0 n.paths = some path := by
  obtain ⟨hpath, hlt⟩ := getElem?_pathIndex (Nat.zero_le bucket)
    (by rw [hsum]; omega : bucket < 0 + (n.paths.map (·.percent)).sum)
  refine ⟨n.paths[n.index bucket], List.getElem?_eq_getElem hlt, ?_⟩
  rw [← hpath]
  exact List.getElem?_eq_getElem hlt

/-- Before the sample is full, the path of the bucket is taken. -/
theorem executeSplit_of_path {env : StepEnv} {step : StepContext} {path : SplitPath}
    (hopen : n.sampleFull env.splitArrivals = none)
    (hpath : pathOfBucket (splitBucket step.enrollment n) 0 n.paths = some path) :
    executeSplit env step n = .ok (path.outcome (splitBucket step.enrollment n)) := by
  unfold executeSplit
  rw [hopen]
  dsimp only
  rw [hpath]
  rfl

theorem countP_index (hsum : (n.paths.map (·.percent)).sum = 100) {i : Nat} {p : SplitPath}
    (hp : n.paths[i]? = some p) :
    (List.range 100).countP (fun bucket => decide (n.index bucket = i)) = p.percent := by
  have hinterval : ∀ bucket, n.index bucket = i ↔
      ((n.paths.take i).map (·.percent)).sum ≤ bucket ∧
        bucket < ((n.paths.take i).map (·.percent)).sum + p.percent := fun bucket => by
    have h := pathIndex_eq_iff hp (Nat.zero_le bucket)
    rwa [Nat.zero_add] at h
  have hle : ((n.paths.take i).map (·.percent)).sum + p.percent ≤ 100 := by
    have hsplit : n.paths = n.paths.take i ++ p :: n.paths.drop (i + 1) := by
      obtain ⟨hi, rfl⟩ := List.getElem?_eq_some_iff.1 hp
      rw [← List.drop_eq_getElem_cons hi, List.take_append_drop]
    have htotal := hsum
    rw [hsplit, List.map_append, List.sum_append, List.map_cons, List.sum_cons] at htotal
    omega
  rw [← countP_interval hle]
  exact List.countP_congr fun bucket _ => by simp only [decide_eq_true_eq, hinterval]

/-- Different names find different paths. -/
theorem path_of_nodup (hnodup : (n.paths.map (·.name)).Nodup) {path : SplitPath}
    (hpath : path ∈ n.paths) : n.path path.name = some path := by
  obtain ⟨first, hfirst⟩ : ∃ first, n.path path.name = some first :=
    Option.isSome_iff_exists.1 (List.find?_isSome.2 ⟨path, hpath, decide_eq_true rfl⟩)
  have hname : first.name = path.name :=
    of_decide_eq_true (List.find?_some (p := fun p : SplitPath => decide (p.name = path.name)) hfirst)
  obtain rfl := List.inj_on_of_nodup_map hnodup (List.mem_of_find?_eq_some hfirst) hpath hname
  exact hfirst

/-- **A split whose percentages add up to a hundred keeps the law.** -/
theorem SplitNode.divides_of_sum (hsum : (n.paths.map (·.percent)).sum = 100) : n.Divides where
  exact' _ _ hp := countP_index hsum hp
  routes env step hopen := by
    obtain ⟨path, hindex, hpath⟩ := exists_path hsum (splitBucket_lt step.enrollment n)
    exact ⟨path, hindex, executeSplit_of_path hopen hpath⟩
  full env step control hfull := by
    refine ⟨List.mem_of_find?_eq_some (path_of_sampleFull hfull), ?_⟩
    unfold executeSplit
    rw [hfull]
    exact ⟨_, rfl⟩
  again env env' step step' hopen hopen' hsubject hjourney := by
    have hbucket : splitBucket step'.enrollment n = splitBucket step.enrollment n := by
      rw [splitBucket, splitBucket, hsubject, hjourney]
    obtain ⟨path, -, hpath⟩ := exists_path hsum (splitBucket_lt step.enrollment n)
    rw [executeSplit_of_path hopen hpath, executeSplit_of_path hopen' (hbucket ▸ hpath), hbucket]
  replayed hnodup env step edge to' output reason h := by
    cases hfull : n.sampleFull env.splitArrivals with
    | some control =>
      unfold executeSplit at h
      rw [hfull] at h
      cases h
      rw [edgeTarget, path_of_sampleFull hfull, Option.map_some]
    | none =>
      obtain ⟨path, hindex, hpath⟩ := exists_path hsum (splitBucket_lt step.enrollment n)
      rw [executeSplit_of_path hfull hpath] at h
      cases h
      rw [edgeTarget, path_of_nodup hnodup (List.mem_of_getElem? hindex), Option.map_some]
  simulated env step facts spec contact hopen hsubject := by
    obtain ⟨path, -, hpath⟩ := exists_path hsum (splitBucket_lt step.enrollment n)
    refine ⟨path, executeSplit_of_path hopen hpath, ?_⟩
    have hsame : stableBucket [sampleKey contact, step.enrollment.journeyId, n.id] =
        splitBucket step.enrollment n := by
      rw [splitBucket, hsubject]
    unfold simulateStep
    dsimp only
    rw [hsame, hpath]

end

/-! ### Splits of valid specs -/

/-- **Splits divide as configured**: a split that the validator accepts keeps the law. -/
theorem split_divides {checkMessageMergeFields : MessageNode → Issues} {spec : JourneySpec}
    {refs : JourneyReferences}
    (h : (validateJourneySpec checkMessageMergeFields spec refs).valid = true) {n : SplitNode}
    (hn : .split n ∈ spec.nodes) : n.Divides :=
  SplitNode.divides_of_sum (percent_of_valid h hn)

/-- Two halves, of which the first is the control, with a sample of twenty. -/
def halves : SplitNode where
  id := "ab"
  paths := [⟨"a", 50, "won"⟩, ⟨"b", 50, "lost"⟩]
  control := some "a"
  sampleSize := some 20

theorem split_divides_sample : halves.Divides := by
  have hvalid : (validateJourneySpec (fun _ => {}) (sampleJourney (.split halves)) {}).valid =
      true := by decide
  exact split_divides hvalid List.mem_cons_self

/-- Two paths with one name. -/
def namesakes : SplitNode where
  id := "ab"
  paths := [⟨"a", 10, "won"⟩, ⟨"a", 90, "lost"⟩]

/-- **Once the sample is full, a subject takes another path than before**, and than in the
simulator; and of two paths with one name, a replay finds the first. -/
theorem split_moves :
    (validateJourneySpec (fun _ => {}) (sampleJourney (.split halves)) {}).valid = true ∧
    executeSplit { now := 0, clock := 0 } (sampleStep (.split halves)) halves =
      .ok (SplitPath.outcome ⟨"b", 50, "lost"⟩ 75) ∧
    executeSplit { now := 0, clock := 0, splitArrivals := 20 } (sampleStep (.split halves)) halves =
      .ok (.advance "a" (some "won")
        (some [("bucket", .num (.ofNat 75)), ("sampleFull", .bool true)]) none) ∧
    (simulateStep {} (sampleJourney (.split halves)) "j1" (.split halves) { id := "1" }).move =
      .edge "b" (some "lost") ∧
    (validateJourneySpec (fun _ => {}) (sampleJourney (.split namesakes)) {}).valid = true ∧
    executeSplit { now := 0, clock := 0 } (sampleStep (.split namesakes)) namesakes =
      .ok (SplitPath.outcome ⟨"a", 90, "lost"⟩ 75) ∧
    edgeTarget (.split namesakes) "a" = some "won" :=
  ⟨by decide, rfl, rfl, by decide +kernel, by decide, rfl, by decide⟩

end Munin
