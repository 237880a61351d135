import Mathlib.Data.Finset.Basic
import Munin.Foundations.Executions

/-!
# The runs of the translation handler

Translations and language detections of a conversation run one at a time. A call for a key whose run
is in progress leaves a note that a rerun is owed, and a run that ends starts it.

* **`TranslationHandler`** — the two collections of the handler, with the runs that are in progress
  and the calls of `idle`.
* **`translationHandler`** — the handler as a machine: a call, the end of a run's work, a call of
  `idle`, or its going on.
* **`TranslationHandler.Sound`** — the map has the runs in progress, one for a key, and reruns are
  owed only for them.
* **`no_trigger_lost`** — in every execution each call is followed by a run of its key, and `idle`
  resolves when there is nothing left to do.
-/

namespace Munin.Agent

open Foundations

/-- A call of the handler. -/
inductive TranslationCall where
  | request (conversationId targetLanguage : String)
  | detect (conversationId : String)

/-- The key of a call. -/
def TranslationCall.key : TranslationCall → String
  | .request conversationId targetLanguage => conversationId ++ ":" ++ targetLanguage
  | .detect conversationId => conversationId ++ ":detect"

/-- A run whose work is in progress: `id` is the promise of the run, and `call` the one whose work
it does. -/
structure TranslationRun where
  id : ℕ
  key : String
  call : TranslationCall

/-- A call of `idle`. -/
inductive IdleCall where
  /-- In `Promise.all` of some runs. -/
  | awaiting (runs : List ℕ)
  | resolved
  | rejected

/-- How the work of a run ends. -/
inductive WorkResult where
  | success
  | failure
  /-- The work fails, and the logger that is told throws. -/
  | loggerThrows
  deriving DecidableEq

/-- `createTranslationHandler`, with what its calls wait for. -/
structure TranslationHandler where
  /-- The map from the keys to the promises of their runs, in the order of insertion. -/
  running : List (String × ℕ)
  rerun : Finset String
  /-- The runs that wait for their work. -/
  runs : List TranslationRun
  /-- How many runs were started. -/
  started : ℕ
  /-- The promises that are settled, each with whether it is fulfilled. -/
  settled : List (ℕ × Bool)
  idlers : List IdleCall

namespace TranslationHandler

def empty : TranslationHandler := ⟨[], ∅, [], 0, [], []⟩

/-- `start`. The work waits at least once, so the entry is there before the run can end. -/
def start (s : TranslationHandler) (key : String) (call : TranslationCall) : TranslationHandler :=
  { s with
    runs := s.runs ++ [⟨s.started, key, call⟩]
    started := s.started + 1
    running :=
      if s.running.any (·.1 = key) then
        s.running.map fun entry => if entry.1 = key then (key, s.started) else entry
      else s.running ++ [(key, s.started)] }

def schedule (s : TranslationHandler) (key : String) (call : TranslationCall) :
    TranslationHandler :=
  if s.running.any (·.1 = key) then { s with rerun := insert key s.rerun }
  else s.start key call

/-- The run has ended, and its entry is deleted. -/
def settle (s : TranslationHandler) (run : TranslationRun) (result : WorkResult) :
    TranslationHandler :=
  { s with
    runs := s.runs.filter (·.id ≠ run.id)
    running := s.running.filter (·.1 ≠ run.key)
    settled := s.settled ++ [(run.id, decide (result ≠ .loggerThrows))] }

/-- The `finally` block of a run, behind which its promise is settled. -/
def finish (s : TranslationHandler) (run : TranslationRun) (result : WorkResult) :
    TranslationHandler :=
  if run.key ∈ s.rerun then
    { s.settle run result with rerun := s.rerun.erase run.key }.start run.key run.call
  else s.settle run result

/-- What `idle` does at the head of its loop. -/
def idle (s : TranslationHandler) : IdleCall :=
  if s.running = [] then .resolved else .awaiting (s.running.map (·.2))

end TranslationHandler

/-- What happens next. -/
inductive HandlerStep where
  | calls (call : TranslationCall)
  /-- The work of a run ends. -/
  | ends (run : ℕ) (result : WorkResult)
  | idles
  /-- A call of `idle` goes on behind its `Promise.all`. -/
  | resumes (i : ℕ)

/-- The handler as a machine. -/
def translationHandler : Machine TranslationHandler HandlerStep where
  step s
    | .calls call => some (s.schedule call.key call)
    | .ends id result => (s.runs.find? (·.id = id)).map fun run => s.finish run result
    | .idles => some { s with idlers := s.idlers ++ [s.idle] }
    | .resumes i =>
      match s.idlers[i]? with
      | some (.awaiting runs) =>
        if runs.any fun id => (id, false) ∈ s.settled then
          some { s with idlers := s.idlers.set i .rejected }
        else if runs.all fun id => (id, true) ∈ s.settled then
          some { s with idlers := s.idlers.set i s.idle }
        else none
      | _ => none

/-- The map has the runs in progress, of which there is one for a key, and reruns are owed only for
these. -/
structure TranslationHandler.Sound (s : TranslationHandler) : Prop where
  running : s.running = s.runs.map fun run => (run.key, run.id)
  keys : (s.runs.map (·.key)).Nodup
  ids : (s.runs.map (·.id)).Nodup
  fresh : ∀ run ∈ s.runs, run.id < s.started
  rerun : ∀ key ∈ s.rerun, ∃ run ∈ s.runs, run.key = key

/-- A run of the key begins in a step. -/
def Begins (s t : TranslationHandler) (key : String) : Prop :=
  ∃ run ∈ t.runs, run.key = key ∧ run ∉ s.runs

/-- A call of `idle` resolves in a step. -/
def Resolves (s t : TranslationHandler) (i : ℕ) : Prop :=
  s.idlers[i]? ≠ some .resolved ∧ t.idlers[i]? = some .resolved

variable {s t : TranslationHandler} {key : String}

namespace TranslationHandler

theorem sound_empty : empty.Sound where
  running := rfl
  keys := List.nodup_nil
  ids := List.nodup_nil
  fresh _ h := by cases h
  rerun _ h := by cases h

namespace Sound

/-- The map has a key if a run of the key is in progress. -/
theorem any_iff (h : s.Sound) :
    s.running.any (·.1 = key) = true ↔ ∃ run ∈ s.runs, run.key = key := by
  simp only [h.running, List.any_map, List.any_eq_true, Function.comp_apply, decide_eq_true_eq]

/-- A run of a key is the one of the key. -/
theorem eq_of_key (h : s.Sound) {a b : TranslationRun} (ha : a ∈ s.runs) (hb : b ∈ s.runs)
    (hkey : a.key = b.key) : a = b :=
  List.inj_on_of_nodup_map h.keys ha hb hkey

/-- A run is started for a key that has none. -/
theorem start (h : s.Sound) (hnone : ∀ run ∈ s.runs, run.key ≠ key) (call : TranslationCall) :
    (s.start key call).Sound where
  running := by
    have hany : ¬ s.running.any (·.1 = key) = true := fun hany => by
      obtain ⟨run, hrun, hkey⟩ := h.any_iff.1 hany
      exact hnone run hrun hkey
    simp only [TranslationHandler.start, if_neg hany, List.map_append, List.map_cons, List.map_nil]
    rw [h.running]
  keys := by
    simp only [TranslationHandler.start, List.map_append, List.map_cons, List.map_nil]
    refine List.nodup_append.2 ⟨h.keys, List.nodup_singleton _, ?_⟩
    rintro _ ha _ hb rfl
    obtain ⟨run, hrun, hkey⟩ := List.mem_map.1 ha
    exact hnone run hrun (hkey.trans (List.mem_singleton.1 hb))
  ids := by
    simp only [TranslationHandler.start, List.map_append, List.map_cons, List.map_nil]
    refine List.nodup_append.2 ⟨h.ids, List.nodup_singleton _, ?_⟩
    rintro _ ha _ hb rfl
    obtain ⟨run, hrun, hid⟩ := List.mem_map.1 ha
    exact (h.fresh run hrun).ne (hid.trans (List.mem_singleton.1 hb))
  fresh run hrun := by
    rcases List.mem_append.1 hrun with hold | hnew
    · exact Nat.lt_succ_of_lt (h.fresh run hold)
    · obtain rfl := List.mem_singleton.1 hnew
      exact Nat.lt_succ_self _
  rerun other hother := by
    obtain ⟨run, hrun, hkey⟩ := h.rerun other hother
    exact ⟨run, List.mem_append_left _ hrun, hkey⟩

theorem schedule (h : s.Sound) (call : TranslationCall) : (s.schedule key call).Sound := by
  unfold TranslationHandler.schedule
  split_ifs with hany
  · refine { h with rerun := fun other hother => ?_ }
    rcases Finset.mem_insert.1 hother with rfl | hold
    · exact h.any_iff.1 hany
    · exact h.rerun other hold
  · exact h.start (fun run hrun hkey => hany (h.any_iff.2 ⟨run, hrun, hkey⟩)) call

variable {run : TranslationRun}

/-- What is left of the runs when one has ended. -/
theorem left (h : s.Sound) (hrun : run ∈ s.runs) {rerun : Finset String}
    (hrerun : ∀ other ∈ rerun, other ∈ s.rerun ∧ other ≠ run.key)
    {settled : List (ℕ × Bool)} {idlers : List IdleCall} :
    Sound ⟨s.running.filter (·.1 ≠ run.key), rerun, s.runs.filter (·.id ≠ run.id), s.started,
      settled, idlers⟩ where
  running := by
    -- The entry of the key is that of the run, which is the only one of its key.
    rw [h.running, List.filter_map]
    refine congrArg _ (List.filter_congr fun other hother => decide_eq_decide.2 (not_congr ?_))
    exact ⟨fun hkey => h.eq_of_key hother hrun hkey ▸ rfl,
      fun hid => List.inj_on_of_nodup_map h.ids hother hrun hid ▸ rfl⟩
  keys := h.keys.sublist (List.filter_sublist.map _)
  ids := h.ids.sublist (List.filter_sublist.map _)
  fresh other hother := h.fresh other (List.mem_of_mem_filter hother)
  rerun other hother := by
    obtain ⟨hold, hne⟩ := hrerun other hother
    obtain ⟨owed, howed, rfl⟩ := h.rerun other hold
    refine ⟨owed, List.mem_filter.2 ⟨howed, decide_eq_true fun hid => hne ?_⟩, rfl⟩
    rw [List.inj_on_of_nodup_map h.ids howed hrun hid]

/-- No run is left of the key of the run that has ended. -/
theorem left_ne (h : s.Sound) {other : TranslationRun} (hrun : run ∈ s.runs)
    (hother : other ∈ s.runs.filter (·.id ≠ run.id)) : other.key ≠ run.key := fun hkey => by
  obtain ⟨hold, hid⟩ := List.mem_filter.1 hother
  exact of_decide_eq_true hid (h.eq_of_key hold hrun hkey ▸ rfl)

theorem finish (h : s.Sound) (hrun : run ∈ s.runs) (result : WorkResult) :
    (s.finish run result).Sound := by
  unfold TranslationHandler.finish
  split_ifs with howed
  · refine Sound.start (h.left hrun fun other hother => ?_) (fun other => h.left_ne hrun) run.call
    exact ⟨Finset.mem_of_mem_erase hother, Finset.ne_of_mem_erase hother⟩
  · refine h.left hrun fun other hother => ⟨hother, ?_⟩
    rintro rfl
    exact howed hother

end Sound

end TranslationHandler

variable {a : HandlerStep} {run : TranslationRun} {i : ℕ}

/-- **Step lemma.** -/
theorem sound_step (h : s.Sound) (hstep : translationHandler.step s a = some t) : t.Sound := by
  cases a with
  | calls call =>
    cases hstep
    exact h.schedule call
  | ends id result =>
    obtain ⟨run, hrun, rfl⟩ := Option.map_eq_some_iff.1 hstep
    exact h.finish (List.mem_of_find?_eq_some hrun) result
  | idles =>
    cases hstep
    exact ⟨h.running, h.keys, h.ids, h.fresh, h.rerun⟩
  | resumes i =>
    simp only [translationHandler] at hstep
    split at hstep
    · split_ifs at hstep
      all_goals
        cases hstep
        exact ⟨h.running, h.keys, h.ids, h.fresh, h.rerun⟩
    · cases hstep

/-- **The handler is sound at any time.** -/
theorem sound_of_reachable (h : translationHandler.Reachable (· = .empty) s) : s.Sound :=
  h.invariant (fun _ heq => heq ▸ TranslationHandler.sound_empty)
    fun _ _ _ _ hsound _ hstep => sound_step hsound hstep

/-! ### What follows a call -/

/-- A rerun of a key is owed while a run is in progress. -/
def Owes (run : TranslationRun) (s : TranslationHandler) : Prop :=
  run ∈ s.runs ∧ run.key ∈ s.rerun

/-- A run that is started begins. -/
theorem begins_start (h : s.Sound) (call : TranslationCall) : Begins s (s.start key call) key :=
  ⟨_, List.mem_concat_self, rfl, fun hold => (h.fresh _ hold).false⟩

/-- A call begins a run of its key, or a rerun is owed from then on. -/
theorem begins_or_owes (h : s.Sound) (call : TranslationCall) :
    Begins s (s.schedule call.key call) call.key ∨
      ∃ run ∈ s.runs, run.key = call.key ∧ Owes run (s.schedule call.key call) := by
  unfold TranslationHandler.schedule
  split_ifs with hany
  · obtain ⟨run, hrun, hkey⟩ := h.any_iff.1 hany
    exact .inr ⟨run, hrun, hkey, hrun, hkey ▸ Finset.mem_insert_self _ _⟩
  · exact .inl (begins_start h call)

/-- A rerun that is owed begins when the run has ended. -/
theorem begins_finish (h : s.Sound) (howes : Owes run s)
    (result : WorkResult) : Begins s (s.finish run result) run.key := by
  unfold TranslationHandler.finish
  rw [if_pos howes.2]
  exact ⟨_, List.mem_concat_self, rfl, fun hold => (h.fresh _ hold).false⟩

theorem begins_of_ends (h : s.Sound) (howes : Owes run s)
    {result : WorkResult} (hstep : translationHandler.step s (.ends run.id result) = some t) :
    Begins s t run.key := by
  obtain ⟨other, hother, rfl⟩ := Option.map_eq_some_iff.1 hstep
  have hid : decide (other.id = run.id) = true :=
    List.find?_some (p := fun r : TranslationRun => decide (r.id = run.id)) hother
  obtain rfl := List.inj_on_of_nodup_map h.ids (List.mem_of_find?_eq_some hother) howes.1
    (of_decide_eq_true hid)
  exact begins_finish h howes result

/-- A rerun is owed until it begins. -/
theorem owes_step (h : s.Sound) (howes : Owes run s)
    (hstep : translationHandler.step s a = some t) :
    Begins s t run.key ∨ Owes run t := by
  obtain ⟨hrun, hkey⟩ := howes
  cases a with
  | calls call =>
    cases hstep
    right
    unfold TranslationHandler.schedule
    split_ifs with hany
    · exact ⟨hrun, Finset.mem_insert_of_mem hkey⟩
    · exact ⟨List.mem_append_left _ hrun, hkey⟩
  | ends id result =>
    obtain ⟨other, hother, rfl⟩ := Option.map_eq_some_iff.1 hstep
    have hmem := List.mem_of_find?_eq_some hother
    by_cases hid : run.id = other.id
    · obtain rfl := List.inj_on_of_nodup_map h.ids hrun hmem hid
      exact .inl (begins_finish h ⟨hrun, hkey⟩ result)
    · right
      have hne : run.key ≠ other.key := fun heq => hid (h.eq_of_key hrun hmem heq ▸ rfl)
      have hleft : run ∈ s.runs.filter (·.id ≠ other.id) :=
        List.mem_filter.2 ⟨hrun, decide_eq_true hid⟩
      unfold TranslationHandler.finish
      split_ifs
      · exact ⟨List.mem_append_left _ hleft, Finset.mem_erase.2 ⟨hne, hkey⟩⟩
      · exact ⟨hleft, hkey⟩
  | idles =>
    cases hstep
    exact .inr ⟨hrun, hkey⟩
  | resumes i =>
    simp only [translationHandler] at hstep
    split at hstep
    · split_ifs at hstep
      all_goals
        cases hstep
        exact .inr ⟨hrun, hkey⟩
    · cases hstep

/-! ### What `idle` waits for -/

/-- `idle` resolves at the head of its loop if nothing is left to do. -/
theorem done_of_idle (h : s.Sound) (hidle : s.idle = .resolved) : s.runs = [] ∧ s.rerun = ∅ := by
  unfold TranslationHandler.idle at hidle
  split_ifs at hidle with hnil
  rw [h.running, List.map_eq_nil_iff] at hnil
  refine ⟨hnil, Finset.eq_empty_of_forall_notMem fun key hkey => ?_⟩
  obtain ⟨run, hrun, -⟩ := h.rerun key hkey
  rw [hnil] at hrun
  cases hrun

/-- A call that resolves when a call is added is that call. -/
theorem resolved_of_concat {idlers : List IdleCall} {idler : IdleCall}
    (hold : idlers[i]? ≠ some .resolved) (hnew : (idlers ++ [idler])[i]? = some .resolved) :
    idler = .resolved := by
  rw [List.getElem?_append] at hnew
  split_ifs at hnew
  · exact absurd hnew hold
  · exact (List.mem_singleton.1 (List.mem_of_getElem? hnew)).symm

/-- A call that resolves when a call goes on is that call. -/
theorem resolved_of_set {idlers : List IdleCall} {idler : IdleCall} {j : ℕ}
    (hold : idlers[i]? ≠ some .resolved) (hnew : (idlers.set j idler)[i]? = some .resolved) :
    idler = .resolved := by
  rw [List.getElem?_set] at hnew
  split_ifs at hnew
  · exact Option.some.inj hnew
  · exact absurd hnew hold

theorem done_of_resolves (h : s.Sound)
    (hstep : translationHandler.step s a = some t) (hresolves : Resolves s t i) :
    t.runs = [] ∧ t.rerun = ∅ := by
  obtain ⟨hold, hnew⟩ := hresolves
  cases a with
  | calls call =>
    cases hstep
    have hsame : (s.schedule call.key call).idlers = s.idlers := by
      unfold TranslationHandler.schedule
      split_ifs <;> rfl
    exact absurd (hsame ▸ hnew) hold
  | ends id result =>
    obtain ⟨run, -, rfl⟩ := Option.map_eq_some_iff.1 hstep
    have hsame : (s.finish run result).idlers = s.idlers := by
      unfold TranslationHandler.finish
      split_ifs <;> rfl
    exact absurd (hsame ▸ hnew) hold
  | idles =>
    cases hstep
    obtain ⟨hruns, hrerun⟩ := done_of_idle h (resolved_of_concat hold hnew)
    exact ⟨hruns, hrerun⟩
  | resumes j =>
    simp only [translationHandler] at hstep
    split at hstep
    · split_ifs at hstep
      all_goals cases hstep
      · cases (resolved_of_set hold hnew)
      · obtain ⟨hruns, hrerun⟩ := done_of_idle h (resolved_of_set hold hnew)
        exact ⟨hruns, hrerun⟩
    · cases hstep

/-- **No trigger is lost**: at most one run of a key is in progress; a call is followed by a run of
its key, once the run that is in progress ends; and `idle` resolves when no run is in progress and
no rerun is owed. -/
theorem no_trigger_lost (x : translationHandler.Execution (· = .empty)) :
    (∀ n, ((x.state n).runs.map (·.key)).Nodup) ∧
    (∀ n call, x.label n = some (.calls call) →
      (∀ run ∈ (x.state n).runs, run.key = call.key →
        ∃ m, n ≤ m ∧ ∃ result, x.label m = some (.ends run.id result)) →
      ∃ m, n ≤ m ∧ Begins (x.state m) (x.state (m + 1)) call.key) ∧
    ∀ n i, Resolves (x.state n) (x.state (n + 1)) i →
      (x.state (n + 1)).runs = [] ∧ (x.state (n + 1)).rerun = ∅ := by
  have hsound : ∀ n, (x.state n).Sound := fun n => sound_of_reachable (x.reachable n)
  refine ⟨fun n => (hsound n).keys, fun n call hcall hends => ?_, fun n i hresolves => ?_⟩
  · have hstep : (x.state n).schedule call.key call = x.state (n + 1) :=
      Option.some.inj (x.step n _ hcall)
    rcases begins_or_owes (hsound n) call with hbegins | ⟨run, hrun, hkey, howes⟩
    · exact ⟨n, Nat.le_refl n, hstep ▸ hbegins⟩
    · obtain ⟨m, hm, result, hend⟩ := hends run hrun hkey
      have hn : n ≠ m := by
        rintro rfl
        cases hcall.symm.trans hend
      -- The rerun is owed until it begins, which is when the run ends at the latest.
      have hafter : (∃ k, n + 1 ≤ k ∧ Begins (x.state k) (x.state (k + 1)) run.key) ∨
          ∀ k, n + 1 ≤ k → Owes run (x.state k) :=
        x.kept_or_reached (hstep ▸ howes)
          fun k a howes hlabel => owes_step (hsound k) howes (x.step k a hlabel)
      rcases hafter with ⟨k, hk, hbegins⟩ | hkept
      · exact ⟨k, Nat.le_of_succ_le hk, hkey ▸ hbegins⟩
      · refine ⟨m, hm, hkey ▸ begins_of_ends (hsound m) (hkept m ?_) (x.step m _ hend)⟩
        exact Nat.lt_of_le_of_ne hm hn
  · cases hlabel : x.label n with
    | none =>
      rw [x.idle n hlabel] at hresolves
      exact absurd hresolves.2 hresolves.1
    | some a => exact done_of_resolves (hsound n) (x.step n a hlabel) hresolves

/-- A request while a run is in progress, whose work fails, is followed by the rerun. -/
theorem no_trigger_lost_rerun : ∃ x : translationHandler.Execution (· = .empty),
    x.label 1 = some (.calls (.request "c" "en")) ∧
      ∃ m, 1 ≤ m ∧ Begins (x.state m) (x.state (m + 1)) "c:en" := by
  have hrun : ∃ t, translationHandler.run .empty [.calls (.request "c" "en"),
      .calls (.request "c" "en"), .ends 0 .failure, .idles, .ends 1 .success] = some t :=
    ⟨_, rfl⟩
  obtain ⟨t, ht⟩ := hrun
  obtain ⟨x, hlabel, hstart⟩ :=
    @Machine.exists_execution _ _ translationHandler (· = .empty) _ _ rfl _ ht
  refine ⟨x, hlabel 1, (no_trigger_lost x).2.1 1 _ (hlabel 1) fun run hmem _ => ?_⟩
  have hone := x.step 0 _ (hlabel 0)
  rw [hstart] at hone
  rw [← Option.some.inj hone] at hmem
  exact ⟨2, by decide, .failure, (List.mem_singleton.1 hmem) ▸ hlabel 2⟩

end Munin.Agent
