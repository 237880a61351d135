import Munin.Foundations.Itinerary
import Munin.Journeys.Simulator
import Munin.Journeys.Validator

/-!
# The flow of a simulation

Whether the counts of a simulation add up: everybody in the sample is excluded or enters, everybody
who enters leaves, and what comes to a node came over its edges.

* **`Conserves`** — the counts add up, and who is counted at the end of the graph came to one.
* **`dropped`** — the edges that a walk counts towards a node without an arrival.
* **`Straight`** — the walk of a contact comes to no node twice, and over no edge whose name another
  edge of its node has.
* **`conserves_iff`** — the counts add up exactly if the walks of all who enter are straight.

A walk that comes back to a node is cut in the end, after an edge is counted and before the arrival
is; if the limit of steps cuts it, it is counted as one that reached the end.
-/

namespace Munin

open Foundations

/-! ### Counts -/

/-- The sum of the counts of a record. -/
def Counts.total (counts : Counts) : Nat := (counts.map (·.2)).sum

/-- No key occurs twice. -/
def Counts.Keyed (counts : Counts) : Prop := (counts.map (·.1)).Nodup

variable {key : String} {counts : Counts}

theorem setField_cons_self {α : Type*} {x : α} {fields : List (String × α)}
    (h : key ∉ fields.map (·.1)) (value : α) :
    setField ((key, x) :: fields) key value = (key, value) :: fields := by
  have hsame : (fields.map fun f => if f.1 = key then (key, value) else f) = fields := by
    rw [List.map_congr_left (g := id), List.map_id]
    intro f hf
    have hne : f.1 ≠ key := fun heq => h (heq ▸ List.mem_map_of_mem hf)
    rw [if_neg hne, id]
  simp [setField, hsame]

theorem setField_cons_of_ne {α : Type*} {k : String} {x : α} {fields : List (String × α)}
    (h : k ≠ key) (value : α) :
    setField ((k, x) :: fields) key value = (k, x) :: setField fields key value := by
  unfold setField
  by_cases hany : fields.any (·.1 = key) <;> simp [h, hany]

/-- A field that is set keeps the keys apart. -/
theorem Counts.Keyed.bump (h : counts.Keyed) (key : String) : (bump counts key).Keyed := by
  unfold Counts.Keyed Munin.bump setField at *
  split
  · rename_i hany
    have hkeys : (counts.map fun f => if f.1 = key then (key, counts.at key + 1) else f).map (·.1) =
        counts.map (·.1) := by
      rw [List.map_map]
      refine List.map_congr_left fun f _ => ?_
      by_cases hf : f.1 = key <;> simp [hf]
    rw [hkeys]
    exact h
  · rename_i hany
    have hnot : key ∉ counts.map (·.1) := by simpa [List.any_eq_true] using hany
    rw [List.map_append, List.nodup_append]
    refine ⟨h, List.nodup_singleton _, fun a ha b hb heq => hnot ?_⟩
    rw [List.map_singleton, List.mem_singleton] at hb
    have hkey : a = key := heq.trans hb
    rwa [← hkey]

/-- Setting a count trades the old one for it. -/
theorem Counts.total_setField (h : counts.Keyed) (key : String) (value : Nat) :
    Counts.total (setField counts key value) + counts.at key = counts.total + value := by
  induction counts with
  | nil => simp [setField, Counts.total, Counts.at]
  | cons f fs ih =>
    obtain ⟨k, x⟩ := f
    have hnodup := List.nodup_cons.1 h
    by_cases hk : k = key
    · subst hk
      rw [setField_cons_self hnodup.1]
      simp [Counts.total, Counts.at]
      omega
    · have hne : (key == k) = false := beq_eq_false_iff_ne.2 (Ne.symm hk)
      have hrest := ih hnodup.2
      have hat : Counts.at ((k, x) :: fs) key = Counts.at fs key := by
        rw [Counts.at, Counts.at, List.lookup_cons, hne]
      rw [setField_cons_of_ne hk, hat]
      simp only [Counts.total, List.map_cons, List.sum_cons] at hrest ⊢
      omega

/-- One more is counted. -/
theorem Counts.total_bump (h : counts.Keyed) (key : String) :
    (bump counts key).total = counts.total + 1 := by
  have htrade := Counts.total_setField h key (counts.at key + 1)
  rw [← Munin.bump] at htrade
  omega

/-! ### What comes to a node -/

/-- The keys that edges to a node are counted with. -/
def incomingKeys (spec : JourneySpec) (id : NodeId) : List String :=
  (spec.nodes.flatMap fun node => (journeyNodeEdges node).filterMap fun e =>
    if e.to' = id then some (node.id ++ "." ++ e.label) else none).dedup

/-- The sum of the counts on the edges to a node. -/
def inflow (spec : JourneySpec) (edges : Counts) (id : NodeId) : Nat :=
  ((incomingKeys spec id).map edges.at).sum

theorem mem_incomingKeys {spec : JourneySpec} {id : NodeId} :
    key ∈ incomingKeys spec id ↔ ∃ node ∈ spec.nodes, ∃ e ∈ journeyNodeEdges node,
      e.to' = id ∧ node.id ++ "." ++ e.label = key := by
  rw [incomingKeys, List.mem_dedup]
  simp only [List.mem_flatMap, List.mem_filterMap, Option.ite_none_right_eq_some,
    Option.some.injEq]

/-- The sum of the counts of some keys, after one of them or another key is counted. -/
theorem sum_at_bump {keys : List String} (h : keys.Nodup) (counts : Counts) (key : String) :
    (keys.map (bump counts key).at).sum =
      (keys.map counts.at).sum + if key ∈ keys then 1 else 0 := by
  induction keys with
  | nil => simp
  | cons k ks ih =>
    obtain ⟨hnot, hnodup⟩ := List.nodup_cons.1 h
    have hrest := ih hnodup
    have hhead := Counts.at_bump counts key k
    rw [List.map_cons, List.map_cons, List.sum_cons, List.sum_cons, hrest, hhead]
    by_cases hk : k = key
    · subst hk
      simp [hnot]
      omega
    · simp [hk, Ne.symm hk]
      omega

theorem inflow_bump (spec : JourneySpec) (edges : Counts) (key : String) (id : NodeId) :
    inflow spec (bump edges key) id =
      inflow spec edges id + if key ∈ incomingKeys spec id then 1 else 0 :=
  sum_at_bump (List.nodup_dedup _) edges key

/-- How many more the start and the edges bring to a node than come to it. -/
def SimulationResult.gap (r : SimulationResult) (spec : JourneySpec) (id : NodeId) : Int :=
  (if id = spec.start then r.entered else 0) + inflow spec r.edges id - r.arrivals.at id

@[simp]
theorem SimulationResult.gap_note (r : SimulationResult) (spec : JourneySpec) (id : NodeId)
    (contactId : String) (message : Option SimulatedMessage) (assumptions : Assumptions) :
    (r.note contactId message assumptions).gap spec id = r.gap spec id := by
  cases message <;> rfl

theorem SimulationResult.gap_arrive (r : SimulationResult) (spec : JourneySpec) (id at' : NodeId) :
    (r.arrive at').gap spec id = r.gap spec id - if id = at' then 1 else 0 := by
  have hat := Counts.at_bump r.arrivals at' id
  simp only [gap, arrive, hat]
  push_cast
  omega

theorem SimulationResult.gap_follow (r : SimulationResult) (spec : JourneySpec) (id from' : NodeId)
    (label : String) :
    (r.follow from' label).gap spec id =
      r.gap spec id + if from' ++ "." ++ label ∈ incomingKeys spec id then 1 else 0 := by
  have hflow := inflow_bump spec r.edges (from' ++ "." ++ label) id
  simp only [gap, follow, hflow]
  push_cast
  omega

/-! ### Edges that are taken -/

theorem mem_edgeTo {e : NodeEdge} {label : String} {to' : Option NodeId} :
    e ∈ edgeTo label to' ↔ e.label = label ∧ to'.filter (· ≠ "") = some e.to' := by
  obtain ⟨l, t⟩ := e
  cases to' with
  | none => simp [edgeTo]
  | some id =>
    by_cases hid : id = ""
    · simp [edgeTo, hid]
    · simp [edgeTo, hid, Option.filter_some, eq_comm]

/-- A path that a bucket falls on is one of the paths. -/
theorem mem_of_pathOfBucket {bucket cumulative : Nat} {paths : List SplitPath} {path : SplitPath}
    (h : pathOfBucket bucket cumulative paths = some path) : path ∈ paths := by
  induction paths generalizing cumulative with
  | nil => cases h
  | cons p ps ih =>
    unfold pathOfBucket at h
    split at h
    · cases h
      exact List.mem_cons_self
    · split at h
      · rename_i q hq
        cases h
        exact List.mem_cons_of_mem _ (ih hq)
      · cases h
        exact List.mem_cons_self

/-- The edge `next` of a message. -/
theorem next_mem {n : MessageNode} {t : NodeId} (ht : n.next.filter (· ≠ "") = some t) :
    ⟨"next", t⟩ ∈ journeyNodeEdges (.message n) :=
  List.mem_append_left _ (List.mem_append_left _
    (List.mem_append_left _ (mem_edgeTo.2 ⟨rfl, ht⟩)))

section Taken

variable {facts : SimulationFacts} {spec : JourneySpec} {journeyId : String}
  {contact : SampleContact}

variable {to' : Option NodeId}

/-- The edge that a message is left by is one of its node. -/
theorem simulateMessage_edge {n : MessageNode} {label : String}
    {t : NodeId} (hmove : (simulateMessage facts spec n contact).move = .edge label to')
    (ht : to'.filter (· ≠ "") = some t) : ⟨label, t⟩ ∈ journeyNodeEdges (.message n) := by
  have hnext : ∀ {l : String} {o : Option NodeId}, SimulatedMove.edge "next" n.next = .edge l o →
      o.filter (· ≠ "") = some t → ⟨l, t⟩ ∈ journeyNodeEdges (.message n) := by
    rintro l o heq ho
    cases heq
    exact next_mem ho
  unfold simulateMessage at hmove
  simp only at hmove
  split at hmove
  · cases hmove
  · split at hmove
    · split at hmove
      · cases hmove
        simp only [journeyNodeEdges, List.mem_append, List.mem_flatMap, mem_edgeTo]
        exact .inl (.inr ⟨.reached, by decide, by decide, ht⟩)
      · exact hnext hmove ht
    · exact hnext hmove ht

/-- The edge that a contact takes from a node is one of the node. -/
theorem taken_edge {node : JourneyNode} {label : String} {t : NodeId}
    (hmove : (simulateStep facts spec journeyId node contact).move = .edge label to')
    (ht : to'.filter (· ≠ "") = some t) : ⟨label, t⟩ ∈ journeyNodeEdges node := by
  unfold simulateStep at hmove
  cases node with
  | message n =>
    simp only at hmove
    split at hmove
    · cases hmove
      exact next_mem ht
    · split at hmove
      · unfold companyStep at hmove
        split at hmove
        · cases hmove
        · simp only at hmove
          split at hmove
          · cases hmove
            exact next_mem ht
          · cases hmove
      · exact simulateMessage_edge hmove ht
  | wait n =>
    cases hmove
    exact mem_edgeTo.2 ⟨rfl, ht⟩
  | waitFor n =>
    simp only at hmove
    split at hmove
    · cases hmove
      exact List.mem_append_right _ (mem_edgeTo.2 ⟨rfl, ht⟩)
    · cases hmove
  | branch n =>
    simp only at hmove
    split at hmove
    · rename_i rule hrule
      cases hmove
      refine List.mem_append_left _ (List.mem_flatMap.2 ⟨rule, ?_, mem_edgeTo.2 ⟨rfl, ht⟩⟩)
      exact List.mem_of_find?_eq_some hrule
    · cases hmove
      exact List.mem_append_right _ (mem_edgeTo.2 ⟨rfl, ht⟩)
  | split n =>
    simp only at hmove
    split at hmove
    · rename_i path hpath
      cases hmove
      exact List.mem_flatMap.2 ⟨path, mem_of_pathOfBucket hpath, mem_edgeTo.2 ⟨rfl, ht⟩⟩
    · cases hmove
  | goal n =>
    simp only at hmove
    split at hmove
    · cases hmove
    · cases hmove
      exact mem_edgeTo.2 ⟨rfl, ht⟩
  | jump n =>
    cases hmove
    rw [journeyNodeEdges]
    exact mem_edgeTo.2 ⟨rfl, ht⟩
  | exit n => cases hmove
  | action n =>
    cases hmove
    exact mem_edgeTo.2 ⟨rfl, ht⟩
  | agent n =>
    simp only at hmove
    split at hmove
    · cases hmove
      exact List.mem_append_right _ (mem_edgeTo.2 ⟨rfl, ht⟩)
    · cases hmove
      -- The preview takes the fallback, an edge if it leads anywhere.
      cases hlookup : (n.edges.getD []).lookup (n.fallback.getD "undefined") with
      | none => simp [hlookup] at ht
      | some id =>
        obtain ⟨l₁, l₂, hl, -⟩ := List.lookup_eq_some_iff.1 hlookup
        refine List.mem_append_left _
          (List.mem_flatMap.2 ⟨(n.fallback.getD "undefined", id), ?_, ?_⟩)
        · rw [hl]
          simp
        · exact mem_edgeTo.2 ⟨rfl, hlookup ▸ ht⟩
  | approval n =>
    cases hmove
    exact List.mem_append_left _ (List.mem_append_left _ (mem_edgeTo.2 ⟨rfl, ht⟩))
  | subJourney n =>
    cases hmove
    exact List.mem_append_left _ (mem_edgeTo.2 ⟨rfl, ht⟩)

end Taken

/-! ### Walks -/

section Walks

variable (facts : SimulationFacts) (spec : JourneySpec) (journeyId : String)
  (contact : SampleContact)

/-- Where a contact goes from a node, if anywhere. -/
def goesTo (id : NodeId) : Option NodeId :=
  match spec.node id with
  | none => none
  | some node =>
    match (simulateStep facts spec journeyId node contact).move with
    | .exit _ => none
    | .edge _ to' => to'.filter (· ≠ "")

/-- The edges of a node that are counted together with the one that the contact takes lead where it
goes. -/
def PlainAt (id : NodeId) : Prop :=
  ∀ node label to', spec.node id = some node →
    (simulateStep facts spec journeyId node contact).move = .edge label to' →
    ∀ e ∈ journeyNodeEdges node, e.label = label → to'.filter (· ≠ "") = some e.to'

/-- The way of a contact comes back to no node, and takes plain edges only. -/
structure Straight : Prop where
  once : ¬ Returns (goesTo facts spec journeyId contact) spec.start
  plain : ∀ i id, stop (goesTo facts spec journeyId contact) spec.start i = some id →
    PlainAt facts spec journeyId contact id

/-- What the edges of a walk bring to a node, as they are counted, beyond its arrivals there. -/
def dropped : Nat → Option NodeId → Visits → NodeId → Nat
  | 0, to', _, n => if to'.filter (· ≠ "") = some n then 1 else 0
  | _ + 1, none, _, _ => 0
  | steps + 1, some id, visits, n =>
    if id = "" then 0
    else match spec.node id with
      | none => if id = n then 1 else 0
      | some node =>
        let visits := visits.enter node.id
        if visits.exceed node.id spec.settings.maxVisitsPerNode then if id = n then 1 else 0
        else match (simulateStep facts spec journeyId node contact).move with
          | .exit _ => 0
          | .edge label to' =>
            (if node.id ++ "." ++ label ∈ incomingKeys spec n ∧ to'.filter (· ≠ "") ≠ some n then 1
              else 0) + dropped steps to' visits n

/-- The counts of a simulation add up, and who is counted at the end of the graph came to one. -/
structure Conserves (sample : List SampleContact) : Prop where
  everyone : (simulate facts spec journeyId sample).entered +
    (simulate facts spec journeyId sample).excluded.total = sample.length
  everyExit : (simulate facts spec journeyId sample).exits.total =
    (simulate facts spec journeyId sample).entered
  flow : ∀ node ∈ spec.nodes, (simulate facts spec journeyId sample).arrivals.at node.id =
    (if node.id = spec.start then (simulate facts spec journeyId sample).entered else 0) +
      inflow spec (simulate facts spec journeyId sample).edges node.id
  ends : ∀ contact ∈ sample, ∀ r : SimulationResult, r.exits.at "reached_end" <
      (simulateContact facts spec journeyId contact r).exits.at "reached_end" →
    ∃ i, stop (goesTo facts spec journeyId contact) spec.start i = none

end Walks

section Flow

variable {facts : SimulationFacts} {spec : JourneySpec} {journeyId : String}
  {contact : SampleContact}

/-- A node that is found has the id and is one of the nodes. -/
theorem node_found {id : NodeId} {node : JourneyNode} (h : spec.node id = some node) :
    node ∈ spec.nodes ∧ node.id = id := by
  rw [JourneySpec.node] at h
  have hid := List.find?_some h
  exact ⟨List.mem_of_find?_eq_some h, by simpa using hid⟩

/-- A node that is there is found. -/
theorem exists_node {id : NodeId} (h : ∃ node ∈ spec.nodes, node.id = id) :
    ∃ node, spec.node id = some node := by
  obtain ⟨node, hn, hid⟩ := h
  rw [← Option.isSome_iff_exists, JourneySpec.node, List.find?_isSome]
  exact ⟨node, hn, by simpa using hid⟩

/-- **What a walk counts.** The edges bring to a node what comes to it, what is dropped, and the
node that the walk set out for. -/
theorem gap_walk (facts : SimulationFacts) (spec : JourneySpec) (journeyId : String)
    (contact : SampleContact) (k : Nat) (to' : Option NodeId) (visits : Visits)
    (r : SimulationResult) (n : NodeId) :
    (walk facts spec journeyId contact k to' visits r).1.gap spec n +
        (if to'.filter (· ≠ "") = some n then 1 else 0) =
      r.gap spec n + dropped facts spec journeyId contact k to' visits n := by
  induction k generalizing to' visits r with
  | zero => simp [walk, dropped]
  | succ k ih =>
    cases to' with
    | none => simp [walk, dropped]
    | some id =>
      unfold walk dropped
      by_cases hempty : id = ""
      · simp [hempty]
      · have hpending : (some id).filter (· ≠ "") = some id := by simp [hempty, Option.filter_some]
        rw [if_neg hempty, if_neg hempty, hpending]
        simp only [Option.some.injEq]
        cases hnode : spec.node id with
        | none => simp
        | some node =>
          obtain ⟨hmem, rfl⟩ := node_found hnode
          simp only
          split
          · simp
          · -- the node is reached; what follows is counted from there
            cases hmove : (simulateStep facts spec journeyId node contact).move with
            | exit reason =>
              simp only [SimulationResult.gap_note, SimulationResult.gap_arrive]
              have hcomm : (n = node.id) = (node.id = n) := propext eq_comm
              simp only [hcomm]
              split <;> omega
            | edge label next =>
              simp only
              have hrest := ih next (visits.enter node.id)
                (((r.arrive node.id).note contact.id
                  (simulateStep facts spec journeyId node contact).message
                  (simulateStep facts spec journeyId node contact).assumptions).follow
                    node.id label)
              rw [SimulationResult.gap_follow, SimulationResult.gap_note,
                SimulationResult.gap_arrive] at hrest
              -- an edge that leads to the node is counted towards it
              have hcount : next.filter (· ≠ "") = some n →
                  node.id ++ "." ++ label ∈ incomingKeys spec n := fun hnext =>
                mem_incomingKeys.2 ⟨node, hmem, ⟨label, n⟩, taken_edge hmove hnext, rfl, rfl⟩
              have hcomm : (n = node.id) = (node.id = n) := propext eq_comm
              simp only [hcomm] at hrest
              by_cases hkey : node.id ++ "." ++ label ∈ incomingKeys spec n <;>
                by_cases hnext : next.filter (· ≠ "") = some n
              · simp only [hkey, hnext, ne_eq, not_true_eq_false, and_false, if_true, if_false]
                  at hrest ⊢
                push_cast
                omega
              · simp only [hkey, hnext, ne_eq, not_false_eq_true, and_true, if_true, if_false]
                  at hrest ⊢
                push_cast
                omega
              · exact absurd (hcount hnext) hkey
              · simp only [hkey, hnext, false_and, if_false] at hrest ⊢
                push_cast
                omega

end Flow

/-! ### Walks of valid specs -/

section Valid

variable {checkMessageMergeFields : MessageNode → Issues} {refs : JourneyReferences}
  {facts : SimulationFacts} {spec : JourneySpec} {journeyId : String} {contact : SampleContact}

variable {id : NodeId} {visits : Visits}

section Goes

variable (hvalid : (validateJourneySpec checkMessageMergeFields spec refs).valid)

include hvalid

/-- A contact goes to nodes of the spec. -/
theorem exists_of_goesTo {t : NodeId} (h : goesTo facts spec journeyId contact id = some t) :
    ∃ node ∈ spec.nodes, node.id = t := by
  unfold goesTo at h
  split at h
  · cases h
  · rename_i node hnode
    split at h
    · cases h
    · rename_i label next hmove
      exact target_of_valid hvalid (node_found hnode).1 (taken_edge hmove h)

/-- The stops of a contact are nodes of the spec. -/
theorem exists_of_stop {i : Nat}
    (h : stop (goesTo facts spec journeyId contact) spec.start i = some id) :
    ∃ node ∈ spec.nodes, node.id = id := by
  cases i with
  | zero =>
    cases h
    exact start_of_valid hvalid
  | succ i =>
    rw [stop] at h
    obtain ⟨_, -, hgoes⟩ := Option.bind_eq_some_iff.1 h
    exact exists_of_goesTo hvalid hgoes

variable {to' : Option NodeId} {node : JourneyNode}

/-- Of a walk that drops nothing, the way that it set out on ends, and takes plain edges only. -/
theorem ends_of_dropped {k : Nat} {first : NodeId}
    (hfirst : to'.filter (· ≠ "") = some first) (hnode : ∃ node ∈ spec.nodes, node.id = first)
    (h : ∀ node ∈ spec.nodes, dropped facts spec journeyId contact k to' visits node.id = 0) :
    (∃ i, stop (goesTo facts spec journeyId contact) first i = none) ∧
      ∀ i id, stop (goesTo facts spec journeyId contact) first i = some id →
        PlainAt facts spec journeyId contact id := by
  induction k generalizing to' visits first with
  | zero =>
    obtain ⟨node, hn, hid⟩ := hnode
    have hzero := h node hn
    rw [dropped, hfirst, hid, if_pos rfl] at hzero
    cases hzero
  | succ k ih =>
    obtain ⟨id, rfl, hid⟩ : ∃ id, to' = some id ∧ id ≠ "" ∧ id = first := by
      cases to' with
      | none => cases hfirst
      | some id =>
        obtain ⟨hsome, hne⟩ := Option.filter_eq_some_iff.1 hfirst
        cases hsome
        exact ⟨first, rfl, by simpa using hne, rfl⟩
    obtain ⟨hne, rfl⟩ := hid
    obtain ⟨node, hfound⟩ := exists_node hnode
    obtain ⟨hmem, rfl⟩ := node_found hfound
    have hgoes : goesTo facts spec journeyId contact node.id =
        match (simulateStep facts spec journeyId node contact).move with
        | .exit _ => none
        | .edge _ to' => to'.filter (· ≠ "") := by
      rw [goesTo, hfound]
    have hvisit : (visits.enter node.id).exceed node.id spec.settings.maxVisitsPerNode = false := by
      by_contra hexceed
      have hzero := h node hmem
      rw [Bool.not_eq_false] at hexceed
      unfold dropped at hzero
      rw [if_neg hne, hfound] at hzero
      simp only [hexceed, if_true] at hzero
      cases hzero
    have hbelow : ∀ n ∈ spec.nodes,
        (match (simulateStep facts spec journeyId node contact).move with
        | .exit _ => 0
        | .edge label to' =>
          (if node.id ++ "." ++ label ∈ incomingKeys spec n.id ∧ to'.filter (· ≠ "") ≠ some n.id
            then 1 else 0) +
              dropped facts spec journeyId contact k to' (visits.enter node.id) n.id) = 0 := by
      intro n hn
      have hzero := h n hn
      unfold dropped at hzero
      rw [if_neg hne, hfound] at hzero
      simpa only [hvisit, Bool.false_eq_true, if_false] using hzero
    cases hmove : (simulateStep facts spec journeyId node contact).move with
    | exit reason =>
      rw [hmove] at hgoes
      refine ⟨⟨1, by rw [stop, stop, Option.bind_some, hgoes]⟩, fun i id' hstop => ?_⟩
      cases i with
      | zero =>
        cases hstop
        intro node' label to' hnode' hmove'
        rw [hfound, Option.some.injEq] at hnode'
        rw [← hnode', hmove] at hmove'
        cases hmove'
      | succ i =>
        rw [stop_succ, hgoes] at hstop
        cases hstop
    | edge label next =>
      simp only [hmove] at hgoes
      simp only [hmove, Nat.add_eq_zero_iff] at hbelow
      -- an edge that leads elsewhere would be counted there
      have hplain : PlainAt facts spec journeyId contact node.id := by
        intro node' label' next' hnode' hmove' e he hlabel
        rw [hfound, Option.some.injEq] at hnode'
        subst hnode'
        rw [hmove] at hmove'
        cases hmove'
        by_contra hother
        obtain ⟨target, htarget, htid⟩ := target_of_valid hvalid hmem he
        have hzero := (hbelow target htarget).1
        have hkey : node.id ++ "." ++ label ∈ incomingKeys spec target.id :=
          mem_incomingKeys.2 ⟨node, hmem, e, he, htid.symm, by rw [hlabel]⟩
        rw [if_pos ⟨hkey, htid ▸ hother⟩] at hzero
        cases hzero
      cases hnext : next.filter (· ≠ "") with
      | none =>
        rw [hnext] at hgoes
        refine ⟨⟨1, by rw [stop, stop, Option.bind_some, hgoes]⟩, fun i id' hstop => ?_⟩
        cases i with
        | zero =>
          cases hstop
          exact hplain
        | succ i =>
          rw [stop_succ, hgoes] at hstop
          cases hstop
      | some second =>
        rw [hnext] at hgoes
        obtain ⟨⟨i, hi⟩, hrest⟩ := ih hnext (exists_of_goesTo hvalid hgoes)
          fun n hn => (hbelow n hn).2
        refine ⟨⟨i + 1, by rw [stop_succ, hgoes, Option.bind_some, hi]⟩, fun j id' hstop => ?_⟩
        cases j with
        | zero =>
          cases hstop
          exact hplain
        | succ j =>
          rw [stop_succ, hgoes, Option.bind_some] at hstop
          exact hrest j id' hstop

end Goes

/-- Node ids of a spec that conforms have no dot. -/
theorem dot_not_mem_id (hconforms : spec.conforms) (hn : node ∈ spec.nodes) :
    '.' ∉ node.id.toList := by
  have hnode := spec.conforms_node hconforms hn
  rw [JourneyNode.conforms.eq_def, Bool.and_eq_true] at hnode
  have hid := hnode.1
  unfold isNodeId at hid
  split at hid
  · rename_i hnil
    simp [hnil]
  · rename_i c cs hcons
    simp only [Bool.and_eq_true, List.all_eq_true] at hid
    rw [hcons, List.mem_cons]
    rintro (rfl | hmem)
    · exact absurd hid.1.1 (by decide)
    · exact absurd (hid.2 _ hmem) (by decide)

/-- What stands before the first dot is the same in equal texts, and so is what follows it. -/
theorem append_dot_inj {x y v w : List Char} (hx : '.' ∉ x) (hy : '.' ∉ y)
    (h : x ++ '.' :: v = y ++ '.' :: w) : x = y ∧ v = w := by
  induction x generalizing y with
  | nil =>
    cases y with
    | nil => exact ⟨rfl, List.tail_eq_of_cons_eq h⟩
    | cons d ds => exact absurd (List.mem_cons.2 (.inl (List.head_eq_of_cons_eq h))) hy
  | cons c cs ih =>
    cases y with
    | nil => exact absurd (List.mem_cons.2 (.inl (List.head_eq_of_cons_eq h).symm)) hx
    | cons d ds =>
      obtain ⟨hsame, hrest⟩ := List.cons_eq_cons.1 h
      have htail := ih (fun hc => hx (List.mem_cons_of_mem _ hc))
        (fun hd => hy (List.mem_cons_of_mem _ hd)) hrest
      rw [hsame, htail.1]
      exact ⟨rfl, htail.2⟩

/-- An edge that is counted with a key of a node is one of its edges. -/
theorem edge_of_key (hconforms : spec.conforms)
    (hvalid : (validateJourneySpec checkMessageMergeFields spec refs).valid)
    (hn : node ∈ spec.nodes) {label : String} {n : NodeId}
    (hkey : node.id ++ "." ++ label ∈ incomingKeys spec n) :
    ∃ e ∈ journeyNodeEdges node, e.label = label ∧ e.to' = n := by
  obtain ⟨other, hother, e, he, hto, heq⟩ := mem_incomingKeys.1 hkey
  have hchars := congrArg String.toList heq
  simp only [String.toList_append, List.append_assoc] at hchars
  obtain ⟨hid, hlabel⟩ := append_dot_inj (dot_not_mem_id hconforms hother)
    (dot_not_mem_id hconforms hn) hchars
  have hsame : other = node :=
    List.inj_on_of_nodup_map (nodup_ids_of_valid hvalid) hother hn (String.toList_inj.1 hid)
  exact ⟨e, hsame ▸ he, String.toList_inj.1 hlabel, hto⟩

/-- A node that was not visited does not exceed the visits that a spec admits. -/
theorem exceed_enter {limit : Nat} (hlimit : 1 ≤ limit)
    (h : visits.get id = none ∨ visits.get id = some .text) :
    (visits.enter id).exceed id limit = false := by
  unfold Visits.exceed
  rw [Visits.get_enter_self, Visits.nextVisit]
  rcases h with h | h
  · simp [h]
    omega
  · simp [h]

/-- A straight way drops nothing: its walk has come so far without visiting a node twice. -/
theorem dropped_of_straight (hconforms : spec.conforms)
    (hvalid : (validateJourneySpec checkMessageMergeFields spec refs).valid)
    (hstraight : Straight facts spec journeyId contact) {k i : Nat} (hk : spec.nodes.length ≤ k + i)
    (hto : to'.filter (· ≠ "") = stop (goesTo facts spec journeyId contact) spec.start i)
    (hvisits : ∀ id, (∀ j < i, stop (goesTo facts spec journeyId contact) spec.start j ≠ some id) →
      visits.get id = none ∨ visits.get id = some .text) (n : NodeId) :
    dropped facts spec journeyId contact k to' visits n = 0 := by
  induction k generalizing i to' visits with
  | zero =>
    have hend : stop (goesTo facts spec journeyId contact) spec.start
        (spec.nodes.map (·.id)).length = none :=
      stop_length_eq_none hstraight.once fun i id hstop =>
        List.mem_map.2 (exists_of_stop hvalid hstop)
    rw [List.length_map] at hend
    rw [dropped, hto, stop_eq_none_of_le (by omega) hend]
    rfl
  | succ k ih =>
    cases to' with
    | none => rfl
    | some id =>
      by_cases hne : id = ""
      · simp [dropped, hne]
      · have hat : stop (goesTo facts spec journeyId contact) spec.start i = some id := by
          rw [← hto]
          simp [hne, Option.filter_some]
        obtain ⟨node, hfound⟩ := exists_node (exists_of_stop hvalid hat)
        obtain ⟨hmem, rfl⟩ := node_found hfound
        have hnew : ∀ j < i, stop (goesTo facts spec journeyId contact) spec.start j ≠
            some node.id := fun j hj hbefore => hstraight.once ⟨j, i, _, hj, hbefore, hat⟩
        have hlimit : 1 ≤ spec.settings.maxVisitsPerNode := by
          simp only [JourneySpec.conforms, Bool.and_eq_true, decide_eq_true_eq] at hconforms
          omega
        unfold dropped
        rw [if_neg hne, hfound]
        simp only [exceed_enter hlimit (hvisits _ hnew), Bool.false_eq_true, if_false]
        cases hmove : (simulateStep facts spec journeyId node contact).move with
        | exit reason => rfl
        | edge label next =>
          simp only
          have hgoes : goesTo facts spec journeyId contact node.id = next.filter (· ≠ "") := by
            rw [goesTo, hfound]
            simp only [hmove]
          have hstray : ¬ (node.id ++ "." ++ label ∈ incomingKeys spec n ∧
              next.filter (· ≠ "") ≠ some n) := by
            rintro ⟨hkey, hother⟩
            obtain ⟨e, he, hlabel, rfl⟩ := edge_of_key hconforms hvalid hmem hkey
            exact hother (hstraight.plain i _ hat node label next hfound hmove e he hlabel)
          rw [if_neg hstray, Nat.zero_add]
          refine ih (i := i + 1) (by omega) (by rw [stop, hat, Option.bind_some, hgoes])
            fun id hid => ?_
          have hother : id ≠ node.id := fun heq => hid i (Nat.lt_succ_self i) (heq ▸ hat)
          rw [Visits.get_enter_of_ne _ hother]
          exact hvisits id fun j hj => hid j (Nat.lt_succ_of_lt hj)

end Valid

/-! ### Samples -/

section Samples

variable (facts : SimulationFacts) {spec : JourneySpec} (journeyId : String)

/-- A walk changes neither who entered nor who was excluded nor who left. -/
theorem walk_frame (spec : JourneySpec) (contact : SampleContact) (k : Nat)
    (to' : Option NodeId) (visits : Visits) (r : SimulationResult) :
    (walk facts spec journeyId contact k to' visits r).1.entered = r.entered ∧
      (walk facts spec journeyId contact k to' visits r).1.excluded = r.excluded ∧
        (walk facts spec journeyId contact k to' visits r).1.exits = r.exits := by
  induction k generalizing to' visits r with
  | zero => exact ⟨rfl, rfl, rfl⟩
  | succ k ih =>
    cases to' with
    | none => exact ⟨rfl, rfl, rfl⟩
    | some id =>
      unfold walk
      split
      · exact ⟨rfl, rfl, rfl⟩
      · cases spec.node id with
        | none => exact ⟨rfl, rfl, rfl⟩
        | some node =>
          have hnote : ∀ message assumptions,
              ((r.arrive node.id).note contact.id message assumptions).entered = r.entered ∧
                ((r.arrive node.id).note contact.id message assumptions).excluded = r.excluded ∧
                  ((r.arrive node.id).note contact.id message assumptions).exits = r.exits := by
            intro message assumptions
            cases message <;> exact ⟨rfl, rfl, rfl⟩
          simp only
          split
          · exact ⟨rfl, rfl, rfl⟩
          · split
            · exact hnote _ _
            · obtain ⟨hentered, hexcluded, hexits⟩ := ih _ _ (((r.arrive node.id).note contact.id
                (simulateStep facts spec journeyId node contact).message
                (simulateStep facts spec journeyId node contact).assumptions).follow node.id _)
              obtain ⟨hentered', hexcluded', hexits'⟩ := hnote
                (simulateStep facts spec journeyId node contact).message
                (simulateStep facts spec journeyId node contact).assumptions
              exact ⟨hentered.trans hentered', hexcluded.trans hexcluded', hexits.trans hexits'⟩

/-- The counts of those who enter, are excluded and leave. -/
structure Tallied (r : SimulationResult) (seen : Nat) : Prop where
  excludedKeyed : r.excluded.Keyed
  exitsKeyed : r.exits.Keyed
  everyone : r.entered + r.excluded.total = seen
  everyExit : r.exits.total = r.entered

/-- One more contact is counted once, and leaves if it enters. -/
theorem Tallied.simulateContact {r : SimulationResult} {seen : Nat} (h : Tallied r seen)
    (spec : JourneySpec) (contact : SampleContact) :
    Tallied (simulateContact facts spec journeyId contact r) (seen + 1) := by
  obtain ⟨hexcluded, hexits, heveryone, hleft⟩ := h
  unfold Munin.simulateContact
  split
  · rename_i reason hblock
    refine ⟨hexcluded.bump reason, hexits, ?_, hleft⟩
    have htotal := Counts.total_bump hexcluded reason
    simp only [htotal]
    omega
  · have hframe := walk_frame facts journeyId spec contact MAX_STEPS spec.start []
      { r with entered := r.entered + 1 }
    generalize walk facts spec journeyId contact MAX_STEPS spec.start []
      { r with entered := r.entered + 1 } = walked at hframe ⊢
    obtain ⟨hentered', hexcluded', hexits'⟩ := hframe
    have htotal := Counts.total_bump hexits (walked.2.getD "reached_end")
    refine ⟨?_, ?_, ?_, ?_⟩
    · exact (congrArg Counts.Keyed hexcluded').mpr hexcluded
    · simp only [SimulationResult.leave, hexits']
      exact hexits.bump _
    · simp only [SimulationResult.leave, hexcluded', hentered']
      omega
    · simp only [SimulationResult.leave, hexits', htotal, hentered', hleft]

/-- The counts of a whole sample. -/
theorem tallied_simulate (spec : JourneySpec) (sample : List SampleContact) :
    Tallied (simulate facts spec journeyId sample) sample.length := by
  have hrun : ∀ (contacts : List SampleContact) (r : SimulationResult) (seen : Nat),
      Tallied r seen → Tallied (contacts.foldl (fun r contact =>
        simulateContact facts spec journeyId contact r) r) (seen + contacts.length) := by
    intro contacts
    induction contacts with
    | nil => exact fun r seen h => h
    | cons c cs ih =>
      intro r seen h
      have hrest := ih _ _ (h.simulateContact facts journeyId spec c)
      rwa [Nat.add_right_comm, Nat.add_assoc] at hrest
  have hall := hrun sample { size := sample.length } 0 ⟨List.nodup_nil, List.nodup_nil, rfl, rfl⟩
  rwa [Nat.zero_add] at hall

/-- What the counts at a node miss of a contact. -/
def missed (spec : JourneySpec) (n : NodeId) (contact : SampleContact) : Nat :=
  if entryBlock facts spec journeyId contact = none then
    dropped facts spec journeyId contact MAX_STEPS spec.start [] n
  else 0

/-- The start of a spec that conforms is not empty. -/
theorem start_filter (hconforms : spec.conforms) :
    (some spec.start).filter (· ≠ "") = some spec.start := by
  have hne : spec.start ≠ "" := by
    intro hempty
    have hstart : isNodeId spec.start = true := by
      simp only [JourneySpec.conforms, Bool.and_eq_true, and_assoc] at hconforms
      exact hconforms.1
    rw [hempty] at hstart
    exact absurd hstart (by decide)
  rw [Option.filter_some, if_pos (by simpa using hne)]

/-- What one contact adds to the gap at a node. -/
theorem gap_simulateContact (hconforms : spec.conforms) (contact : SampleContact)
    (r : SimulationResult) (n : NodeId) :
    (simulateContact facts spec journeyId contact r).gap spec n =
      r.gap spec n + missed facts journeyId spec n contact := by
  unfold simulateContact missed
  cases hblock : entryBlock facts spec journeyId contact with
  | some reason => simp [SimulationResult.gap]
  | none =>
    have hwalk := gap_walk facts spec journeyId contact MAX_STEPS spec.start []
      { r with entered := r.entered + 1 } n
    have hleave : ∀ (s : SimulationResult) (exit : Option String),
        (s.leave exit).gap spec n = s.gap spec n := fun _ _ => rfl
    have hentered : ({ r with entered := r.entered + 1 } : SimulationResult).gap spec n =
        r.gap spec n + if spec.start = n then 1 else 0 := by
      simp only [SimulationResult.gap, eq_comm (a := n)]
      split <;> omega
    rw [start_filter hconforms, hentered] at hwalk
    simp only [Option.some.injEq] at hwalk
    simp only [hleave, if_true]
    omega

/-- The gap at a node is what the counts there miss of the sample. -/
theorem gap_simulate (hconforms : spec.conforms) (sample : List SampleContact) (n : NodeId) :
    (simulate facts spec journeyId sample).gap spec n =
      ((sample.map (missed facts journeyId spec n)).sum : Nat) := by
  have hrun : ∀ (contacts : List SampleContact) (r : SimulationResult),
      (contacts.foldl
          (fun r contact => simulateContact facts spec journeyId contact r) r).gap spec n
        = r.gap spec n + ((contacts.map (missed facts journeyId spec n)).sum : Nat) := by
    intro contacts
    induction contacts with
    | nil => exact fun r => (add_zero _).symm
    | cons c cs ih =>
      intro r
      have hhead := gap_simulateContact facts journeyId hconforms c r n
      rw [List.foldl_cons, ih, hhead, List.map_cons, List.sum_cons]
      push_cast
      omega
  have hempty : ({ size := sample.length } : SimulationResult).gap spec n = 0 := by
    have hzero : inflow spec [] n = 0 :=
      List.sum_eq_zero_iff_forall_eq_nat.2 fun x hx => by
        obtain ⟨key, -, rfl⟩ := List.mem_map.1 hx
        rfl
    simp [SimulationResult.gap, hzero, Counts.at]
  rw [simulate, hrun, hempty, zero_add]

end Samples

/-- **When a simulation adds up.** For a valid spec, exactly if the way of every contact that enters
comes to no node twice, and takes no edge whose name another edge of its node has that leads
elsewhere. -/
theorem conserves_iff {checkMessageMergeFields : MessageNode → Issues} {refs : JourneyReferences}
    (facts : SimulationFacts) (spec : JourneySpec) (journeyId : String)
    (sample : List SampleContact) (hconforms : spec.conforms)
    (hvalid : (validateJourneySpec checkMessageMergeFields spec refs).valid) :
    Conserves facts spec journeyId sample ↔ ∀ contact ∈ sample,
      entryBlock facts spec journeyId contact = none → Straight facts spec journeyId contact := by
  have hflow : ∀ n, (simulate facts spec journeyId sample).arrivals.at n =
      (if n = spec.start then (simulate facts spec journeyId sample).entered else 0) +
        inflow spec (simulate facts spec journeyId sample).edges n ↔
      ∀ contact ∈ sample, missed facts journeyId spec n contact = 0 := by
    intro n
    have hgap := gap_simulate facts journeyId hconforms sample n
    have hsum : (sample.map (missed facts journeyId spec n)).sum = 0 ↔ _ :=
      List.sum_eq_zero_iff_forall_eq_nat
    rw [List.forall_mem_map] at hsum
    rw [← hsum]
    unfold SimulationResult.gap at hgap
    by_cases hstart : n = spec.start
    · rw [if_pos hstart] at hgap ⊢
      omega
    · rw [if_neg hstart] at hgap ⊢
      omega
  have hends : ∀ contact, Straight facts spec journeyId contact →
      stop (goesTo facts spec journeyId contact) spec.start (spec.nodes.map (·.id)).length = none :=
    fun contact hstraight => stop_length_eq_none hstraight.once
      fun i id hstop => List.mem_map.2 (exists_of_stop hvalid hstop)
  constructor
  · intro h contact hcontact henters
    have hdropped : ∀ node ∈ spec.nodes,
        dropped facts spec journeyId contact MAX_STEPS spec.start [] node.id = 0 := by
      intro node hn
      have hmissed := (hflow node.id).1 (h.flow node hn) contact hcontact
      rwa [missed, if_pos henters] at hmissed
    obtain ⟨⟨i, hi⟩, hplain⟩ := ends_of_dropped hvalid (start_filter hconforms)
      (start_of_valid hvalid) hdropped
    exact ⟨fun hreturns => hreturns.stop_ne_none i hi, hplain⟩
  · intro h
    have htallied := tallied_simulate facts journeyId spec sample
    refine ⟨htallied.everyone, htallied.everyExit, fun node hn => (hflow node.id).2 ?_, ?_⟩
    · intro contact hcontact
      unfold missed
      split
      · rename_i henters
        have hlength : spec.nodes.length ≤ MAX_STEPS + 0 := by
          simp only [JourneySpec.conforms, Bool.and_eq_true, decide_eq_true_eq] at hconforms
          unfold MAX_STEPS
          omega
        refine dropped_of_straight hconforms hvalid (h contact hcontact henters) hlength
          (start_filter hconforms) (fun id _ => ?_) node.id
        unfold Visits.get
        by_cases hid : id = "constructor" <;> simp [hid]
      · rfl
    · intro contact hcontact r hcounted
      cases hblock : entryBlock facts spec journeyId contact with
      | none => exact ⟨_, hends contact (h contact hcontact hblock)⟩
      | some reason =>
        rw [simulateContact, hblock] at hcounted
        exact absurd hcounted (lt_irrefl _)

/-- Five waits in a round. -/
def roundSpec : JourneySpec where
  entry := { trigger := .manual }
  goal := some { event := "order.collected", windowDays := 7 }
  settings := { maxVisitsPerNode := 20 }
  start := "w1"
  nodes :=
    [.wait { id := "w1", duration := some "P1D", next := some "w2" },
      .wait { id := "w2", duration := some "P1D", next := some "w3" },
      .wait { id := "w3", duration := some "P1D", next := some "w4" },
      .wait { id := "w4", duration := some "P1D", next := some "w5" },
      .wait { id := "w5", duration := some "P1D", next := some "w1" }]

/-- A contact that goes round without an end is counted as one that reached the end, and its last
edge leads to no arrival. -/
theorem round_not_conserved :
    roundSpec.conforms = true ∧ (validateJourneySpec (fun _ => {}) roundSpec {}).valid = true ∧
      (simulate {} roundSpec "j" [{ id := "c" }]).exits = [("reached_end", 1)] ∧
        (simulate {} roundSpec "j" [{ id := "c" }]).arrivals.at "w1" = 20 ∧
          (simulate {} roundSpec "j" [{ id := "c" }]).edges.at "w5.next" = 20 ∧
            ¬ Conserves {} roundSpec "j" [{ id := "c" }] := by
  refine ⟨by decide, by decide +kernel, by decide +kernel, by decide +kernel, by decide +kernel, ?_⟩
  intro h
  have hflow := h.flow (.wait { id := "w1", duration := some "P1D", next := some "w2" })
    List.mem_cons_self
  exact absurd hflow (by decide +kernel)

/-- Two waits in a line. -/
def lineSpec : JourneySpec where
  entry := { trigger := .manual }
  goal := some { event := "order.collected", windowDays := 7 }
  start := "w1"
  nodes :=
    [.wait { id := "w1", duration := some "P1D", next := some "w2" },
      .wait { id := "w2", duration := some "P1D" }]

/-- Without a way back, the counts add up. -/
theorem line_conserved : Conserves {} lineSpec "j" [{ id := "c" }] := by
  have hvalid : (validateJourneySpec (fun _ => {}) lineSpec {}).valid = true := by decide +kernel
  refine (conserves_iff _ _ _ _ (by decide) hvalid).2 fun contact _ _ => ⟨?_, ?_⟩
  · exact fun hreturns => hreturns.stop_ne_none 2 rfl
  · intro i id hstop node label to' hnode hmove e he hlabel
    match i with
    | 0 =>
      cases hstop
      cases hnode
      cases hmove
      cases List.mem_singleton.1 he
      rfl
    | 1 =>
      cases hstop
      cases hnode
      cases he
    | i + 2 =>
      rw [stop_eq_none_of_le (Nat.le_add_left 2 i) rfl] at hstop
      cases hstop

end Munin
