import Munin.Cms.VersionHistory

/-!
# Restoring a version

`restoreVersion` reads a stored version and goes on as an update with its data. An update merges the
data that it is given into those of the entry, so that it replaces the fields which it names and
leaves the others.

* **`lookup_merged`** — what a merge has under a key.
* **`RestoredTo`** — the data of an entry are those of a version; `restoredTo_spread`: when a merge
  comes to that.
* **`RestoreStage`** — how far a restore has come, between the statements of other transactions.
* **`restored_iff`** — when a restore that has been accepted has restored the version.
-/

namespace Munin

open Foundations VersionLog

/-! ### Merged data -/

theorem lookup_map_getD (a b : JsonObject) (key : String) :
    (a.map fun (k, value) => (k, (b.lookup k).getD value)).lookup key =
      (a.lookup key).map fun value => (b.lookup key).getD value := by
  induction a with
  | nil => rfl
  | cons f a ih =>
    obtain ⟨k, value⟩ := f
    rw [List.map_cons, List.lookup_cons, List.lookup_cons]
    cases hk : key == k with
    | true =>
      obtain rfl := eq_of_beq hk
      rfl
    | false => exact ih

/-- A key of merged data has the value that the second object gives it, or else that of the first. -/
theorem lookup_merged (a b : JsonObject) (key : String) :
    (spread a b).lookup key = (b.lookup key).or (a.lookup key) := by
  rw [spread, List.lookup_append]
  have hfilter : a.lookup key = none →
      (b.filter fun f => !a.any (·.1 = f.1)).lookup key = b.lookup key := by
    intro hnone
    have hany : a.any (·.1 = key) = false := by
      refine List.any_eq_false.2 fun f hf heq => ?_
      obtain rfl := of_decide_eq_true heq
      exact absurd (List.lookup_eq_none_iff.1 hnone f hf) (by simp)
    clear hnone
    induction b with
    | nil => rfl
    | cons f b ih =>
      rw [List.filter_cons, List.lookup_cons]
      cases hk : key == f.1 with
      | true =>
        obtain rfl := eq_of_beq hk
        rw [hany, if_pos Bool.not_false, List.lookup_cons, hk]
      | false =>
        split
        · rw [List.lookup_cons, hk]
          exact ih
        · exact ih
  rw [lookup_map_getD]
  cases ha : a.lookup key with
  | none => exact (hfilter ha).trans Option.or_none.symm
  | some value => cases b.lookup key <;> rfl

/-- The data of an entry are those of a version: the fields of the collection have its values, and
nothing is there that the version does not have. -/
structure RestoredTo (fields : List String) (data stored : JsonObject) : Prop where
  same : ∀ name ∈ fields, data.lookup name = stored.lookup name
  clean : ∀ key, (data.lookup key).isSome → (stored.lookup key).isSome

/-- **When a merge restores**: if the version has every field that the entry has. -/
theorem restoredTo_spread (fields : List String) (existing stored : JsonObject) :
    RestoredTo fields (spread existing stored) stored ↔
      ∀ key, (existing.lookup key).isSome → (stored.lookup key).isSome := by
  constructor
  · intro h key hkey
    refine h.clean key ?_
    rw [lookup_merged, Option.isSome_or, hkey, Bool.or_true]
  · intro h
    refine ⟨fun name _ => ?_, fun key hkey => ?_⟩
    · rw [lookup_merged]
      cases hstored : stored.lookup name with
      | some value => rfl
      | none =>
        have hnone : ¬ (existing.lookup name).isSome = true := fun hsome => by
          have := h name hsome
          rw [hstored] at this
          cases this
        rw [Option.none_or, Option.not_isSome_iff_eq_none.1 hnone]
    · rw [lookup_merged, Option.isSome_or, Bool.or_eq_true] at hkey
      exact hkey.elim id (h key)

/-! ### A restore and the others -/

/-- The transaction that a statement belongs to. -/
def CmsMove.call : CmsMove → ℕ
  | .load call .. | .readTarget call | .reload call _ | .write call _ | .snapshot call
  | .commit call | .abort call => call

section Others

variable {s s' : CmsState} {call : ℕ} {m : CmsMove}

theorem goTo_self (s : CmsState) (t : ℕ) (c : Option CmsCall) : s.goTo t c t = c :=
  Function.update_self ..

theorem goTo_of_ne (s : CmsState) {t : ℕ} (h : t ≠ call) (c : Option CmsCall) :
    s.goTo t c call = s.calls call :=
  Function.update_of_ne h.symm _ _

/-- The statements of another transaction leave this one where it is. -/
theorem calls_step_of_ne (h : s.step m = some s') (hne : m.call ≠ call) :
    s'.calls call = s.calls call := by
  cases cmsStep_of_step h <;> exact goTo_of_ne s hne _

/-- Versions stay. -/
theorem log_step (hs : CmsOk s) (h : s.step m = some s') {r : CmsEntryVersion}
    (hr : r ∈ s.store.log) : r ∈ s'.store.log := by
  cases cmsStep_of_step h with
  | load | readTarget | reload => exact hr
  | writeFailed | snapshotFailed | abort =>
    rw [CmsState.rollback, abort_log]
    exact hr
  | write hcall hupdate =>
    obtain ⟨hout, -⟩ : s.store.Outside _ ∧ _ := hs.stage hcall
    obtain ⟨-, -, rfl⟩ := hout.update_eq_some hupdate
    exact hr
  | snapshot hcall hrecord =>
    obtain ⟨hlock, -⟩ : s.store.lock = _ ∧ _ := hs.stage hcall
    rcases record_eq_some hlock hrecord with ⟨hfalse, -⟩ | ⟨-, rfl, -⟩
    · cases hfalse
    · exact hr
  | commit hcall =>
    obtain ⟨hlock, -⟩ : s.store.lock = _ ∧ _ := hs.stage hcall
    rw [commit_of_lock hlock]
    exact List.mem_append_left _ hr

end Others

/-! ### How far a restore has come -/

/-- The statements of `restoreVersion` before its end; `checks` validates the merged data and leaves
them as they are. -/
def restoreMoves (call ifVersion version : ℕ) (checks : JsonObject → Option JsonObject)
    (loaded written : Instant) : List CmsMove :=
  [.load call (.restore ifVersion version) loaded, .readTarget call, .reload call checks,
    .write call written, .snapshot call]

/-- A restore that still has these statements to make, and where it stands; one that was taken back
makes none that succeeds. -/
inductive RestoreStage (call ifVersion version : ℕ) (checks : JsonObject → Option JsonObject)
    (loaded written : Instant) (log : List CmsEntryVersion) : List CmsMove → Option CmsCall → Prop
  | idle : RestoreStage call ifVersion version checks loaded written log
      (restoreMoves call ifVersion version checks loaded written) none
  | restoring : RestoreStage call ifVersion version checks loaded written log
      [.readTarget call, .reload call checks, .write call written, .snapshot call]
      (some (.restoring ifVersion version))
  | restoreWith (target : CmsEntryVersion) (hmem : target ∈ log)
      (hversion : target.version = version) :
      RestoreStage call ifVersion version checks loaded written log
        [.reload call checks, .write call written, .snapshot call]
        (some (.restoreWith ifVersion target.data))
  | loaded (target : CmsEntryVersion) (hmem : target ∈ log) (hversion : target.version = version)
      (existing : CmsEntry) (hif : existing.version = ifVersion) (slug locale : String) :
      RestoreStage call ifVersion version checks loaded written log
        [.write call written, .snapshot call]
        (some (.loaded (.edit slug locale (spread existing.data target.data)) existing))
  | written (target : CmsEntryVersion) (hmem : target ∈ log) (hversion : target.version = version)
      (existing : CmsEntry) (hif : existing.version = ifVersion) (slug locale : String)
      (updated : CmsEntry) :
      RestoreStage call ifVersion version checks loaded written log [.snapshot call]
        (some (.written (.edit slug locale (spread existing.data target.data)) existing updated))
  | snapshotted (target : CmsEntryVersion) (hmem : target ∈ log)
      (hversion : target.version = version) (existing : CmsEntry)
      (hif : existing.version = ifVersion) (slug locale : String) (updated : CmsEntry) :
      RestoreStage call ifVersion version checks loaded written log []
        (some (.snapshotted (.edit slug locale (spread existing.data target.data)) existing updated))
  | refused (rest : List CmsMove) (hrest : rest = [.snapshot call] ∨ rest = []) :
      RestoreStage call ifVersion version checks loaded written log rest none

section Stages

variable {s s' : CmsState} {call ifVersion version : ℕ} {checks : JsonObject → Option JsonObject}
  {loaded written : Instant} {m : CmsMove} {rest : List CmsMove}

/-- More versions change nothing. -/
theorem RestoreStage.mono {log log' : List CmsEntryVersion} {c : Option CmsCall}
    (hlog : ∀ r ∈ log, r ∈ log')
    (h : RestoreStage call ifVersion version checks loaded written log rest c) :
    RestoreStage call ifVersion version checks loaded written log' rest c := by
  cases h with
  | idle => exact .idle
  | restoring => exact .restoring
  | restoreWith target hmem hversion => exact .restoreWith target (hlog _ hmem) hversion
  | loaded target hmem hversion existing hif slug locale =>
    exact .loaded target (hlog _ hmem) hversion existing hif slug locale
  | written target hmem hversion existing hif slug locale updated =>
    exact .written target (hlog _ hmem) hversion existing hif slug locale updated
  | snapshotted target hmem hversion existing hif slug locale updated =>
    exact .snapshotted target (hlog _ hmem) hversion existing hif slug locale updated
  | refused rest hrest => exact .refused rest hrest

/-- The next statement of the restore itself. -/
theorem RestoreStage.next (hs : CmsOk s) (hchecks : ∀ d d', checks d = some d' → d' = d)
    (hstage : RestoreStage call ifVersion version checks loaded written s.store.log (m :: rest)
      (s.calls call)) (h : s.step m = some s') :
    RestoreStage call ifVersion version checks loaded written s'.store.log rest
      (s'.calls call) := by
  generalize hcall : s.calls call = c at hstage
  cases hstage with
  | idle =>
    rw [CmsState.step, hcall] at h
    obtain ⟨c, hload, rfl⟩ := Option.map_eq_some_iff.1 h
    obtain ⟨existing, -, hload⟩ := Option.bind_eq_some_iff.1 hload
    obtain ⟨-, hload⟩ := Option.ite_none_right_eq_some.1 hload
    obtain rfl := Option.some.inj hload
    dsimp only
    rw [goTo_self]
    exact .restoring
  | restoring =>
    -- It has written nothing yet, so it reads what is committed.
    have hout : s.store.Outside call := hs.stage hcall
    rw [CmsState.step, hcall] at h
    obtain ⟨target, hfind, rfl⟩ := Option.map_eq_some_iff.1 h
    rw [hout.readLog_eq] at hfind
    dsimp only
    rw [goTo_self]
    exact .restoreWith target (List.mem_of_find?_eq_some hfind)
      (by simpa using List.find?_some hfind)
  | restoreWith target hmem hversion =>
    rw [CmsState.step, hcall] at h
    obtain ⟨c, hload, rfl⟩ := Option.map_eq_some_iff.1 h
    obtain ⟨existing, -, hload⟩ := Option.bind_eq_some_iff.1 hload
    obtain ⟨hif, hload⟩ := Option.ite_none_right_eq_some.1 hload
    obtain ⟨newData, hchecked, rfl⟩ := Option.map_eq_some_iff.1 hload
    obtain rfl := hchecks _ _ hchecked
    dsimp only
    rw [goTo_self]
    exact .loaded target hmem hversion existing hif _ _
  | loaded target hmem hversion existing hif slug locale =>
    have hlog : target ∈ s'.store.log := log_step hs h hmem
    rw [CmsState.step, hcall] at h
    obtain ⟨⟨store, written⟩, -, h⟩ := Option.map_eq_some_iff.1 h
    cases written with
    | none =>
      have hnone : s'.calls call = none := h ▸ Function.update_self ..
      rw [hnone]
      exact .refused _ (.inl rfl)
    | some updated =>
      have hsome : s'.calls call = some (.written (.edit slug locale
          (spread existing.data target.data)) existing updated) := h ▸ Function.update_self ..
      rw [hsome]
      exact .written target hlog hversion existing hif slug locale updated
  | written target hmem hversion existing hif slug locale updated =>
    have hlog : target ∈ s'.store.log := log_step hs h hmem
    rw [CmsState.step, hcall] at h
    obtain ⟨⟨store, done⟩, -, h⟩ := Option.map_eq_some_iff.1 h
    cases done with
    | false =>
      have hnone : s'.calls call = none := h ▸ Function.update_self ..
      rw [hnone]
      exact .refused _ (.inr rfl)
    | true =>
      have hsome : s'.calls call = some (.snapshotted (.edit slug locale
          (spread existing.data target.data)) existing updated) := h ▸ Function.update_self ..
      rw [hsome]
      exact .snapshotted target hlog hversion existing hif slug locale updated
  | refused rest hrest =>
    rcases hrest with hrest | hrest
    · obtain ⟨rfl, rfl⟩ := List.cons.inj hrest
      rw [CmsState.step, hcall] at h
      cases h
    · cases hrest

variable {trace : List CmsMove}

/-- **A whole restore**, with the statements of others in between. -/
theorem RestoreStage.run {s u : CmsState} (hs : cmsMachine.Reachable CmsState.Created s)
    (hchecks : ∀ d d', checks d = some d' → d' = d) (hrun : cmsMachine.run s trace = some u)
    (hstage : RestoreStage call ifVersion version checks loaded written s.store.log
      (trace.filter (·.call = call)) (s.calls call)) :
    RestoreStage call ifVersion version checks loaded written u.store.log [] (u.calls call) := by
  induction trace generalizing s with
  | nil =>
    obtain rfl : s = u := Option.some.inj hrun
    exact hstage
  | cons m trace ih =>
    obtain ⟨t, hstep, hrun⟩ := Option.bind_eq_some_iff.1 hrun
    refine ih (.step hs trivial hstep) hrun ?_
    by_cases hm : m.call = call
    · rw [List.filter_cons_of_pos (by simpa using hm)] at hstage
      exact hstage.next (cmsOk_of_reachable hs) hchecks hstep
    · rw [List.filter_cons_of_neg (by simpa using hm)] at hstage
      rw [calls_step_of_ne hstep hm]
      exact hstage.mono fun r hr => log_step (cmsOk_of_reachable hs) hstep hr

/-- A transaction that begins has not begun before. -/
theorem idle_of_run {s u : CmsState} {request : CmsRequest} {now : Instant}
    (hrun : cmsMachine.run s trace = some u)
    (hcalls : trace.filter (·.call = call) = .load call request now :: rest) :
    s.calls call = none := by
  induction trace generalizing s with
  | nil => cases hcalls
  | cons m trace ih =>
    obtain ⟨t, hstep, hrun⟩ := Option.bind_eq_some_iff.1 hrun
    by_cases hm : m.call = call
    · rw [List.filter_cons_of_pos (by simpa using hm)] at hcalls
      obtain ⟨rfl, -⟩ := List.cons.inj hcalls
      rw [show cmsMachine.step s _ = s.step _ from rfl, CmsState.step] at hstep
      split at hstep
      · assumption
      · cases hstep
    · rw [List.filter_cons_of_neg (by simpa using hm)] at hcalls
      rw [← calls_step_of_ne hstep hm]
      exact ih hrun hcalls

end Stages

/-! ### The law -/

/-- **When a restore restores.** After any history, a restore that is accepted makes the entry's data
those of the version if and only if the version has every field that the entry has when it is
restored; the statements of other transactions may come in between. -/
theorem restored_iff {s u v : CmsState} (hs : cmsMachine.Reachable CmsState.Created s)
    {call ifVersion version : ℕ} {checks : JsonObject → Option JsonObject}
    (hchecks : ∀ d d', checks d = some d' → d' = d) {loaded written : Instant}
    {trace : List CmsMove} (hrun : cmsMachine.run s trace = some u)
    (hcalls : trace.filter (·.call = call) =
      restoreMoves call ifVersion version checks loaded written)
    (hcommit : cmsMachine.step u (.commit call) = some v) (fields : List String) :
    ∃ existing restored target, u.store.row = some existing ∧ existing.version = ifVersion ∧
      target ∈ u.store.log ∧ target.version = version ∧ v.store.row = some restored ∧
      (RestoredTo fields restored.data target.data ↔
        ∀ key, (existing.data.lookup key).isSome → (target.data.lookup key).isSome) := by
  have hidle := idle_of_run hrun hcalls
  have hstart : RestoreStage call ifVersion version checks loaded written s.store.log
      (trace.filter (·.call = call)) (s.calls call) := by
    rw [hcalls, hidle]
    exact .idle
  have hstage := RestoreStage.run hs hchecks hrun hstart
  obtain ⟨w, existing, now, hcall, hrow, hrow', -⟩ :=
    ((cmsOk_of_reachable (hs.run hrun)).commit hcommit).2
  rw [hcall] at hstage
  cases hstage with
  | snapshotted target hmem hversion _ hif slug locale _ =>
    exact ⟨existing, _, target, hrow, hif, hmem, hversion, hrow',
      restoredTo_spread fields existing.data target.data⟩

/-- An entry with a title. -/
def titledEntry : CmsState where
  store := {
    row := some { slug := "a", locale := "en", data := [("title", .str "a")] }
    log := [⟨1, .draft, [("title", .str "a")]⟩] }

/-- An edit adds a subtitle, and then the first version is restored. -/
def restoredAfterSubtitle : List CmsMove :=
  [.load 0 (.update 1 none none (some [("subtitle", .str "b")]) some) 0, .write 0 0, .snapshot 0,
    .commit 0] ++ restoreMoves 1 2 1 some 0 0

theorem titledEntry_reachable : cmsMachine.Reachable CmsState.Created titledEntry :=
  .start ⟨_, rfl, rfl⟩

/-- What that comes to: which of the rows have a subtitle. -/
theorem restoredAfterSubtitle_run : ∃ u v,
    cmsMachine.run titledEntry restoredAfterSubtitle = some u ∧
    cmsMachine.step u (.commit 1) = some v ∧
    v.store.row.map (fun e => (e.data.lookup "subtitle").isSome) = some true ∧
    v.store.log.map (fun r => (r.version, (r.data.lookup "subtitle").isSome)) =
      [(1, false), (2, true), (3, true)] := by
  have hrun : (cmsMachine.run titledEntry (restoredAfterSubtitle ++ [.commit 1])).map (fun s =>
      (s.store.row.map fun e => (e.data.lookup "subtitle").isSome,
        s.store.log.map fun r => (r.version, (r.data.lookup "subtitle").isSome))) =
      some (some true, [(1, false), (2, true), (3, true)]) := by decide +kernel
  obtain ⟨v, hv, hshape⟩ := Option.map_eq_some_iff.1 hrun
  obtain ⟨hrow, hlog⟩ := Prod.mk.inj hshape
  obtain ⟨u, hu, hcommit⟩ := (Machine.run_concat_eq_some _).1 hv
  exact ⟨u, v, hu, hcommit, hrow, hlog⟩

theorem restored_iff_sample : ∃ (u v : CmsState) (existing restored : CmsEntry)
    (target : CmsEntryVersion),
    cmsMachine.run titledEntry restoredAfterSubtitle = some u ∧
      u.store.row = some existing ∧ existing.version = 2 ∧ target ∈ u.store.log ∧
      target.version = 1 ∧ v.store.row = some restored ∧
      (RestoredTo ["title"] restored.data target.data ↔
        ∀ key, (existing.data.lookup key).isSome → (target.data.lookup key).isSome) := by
  obtain ⟨u, v, hrun, hcommit, -⟩ := restoredAfterSubtitle_run
  obtain ⟨existing, restored, target, h⟩ := restored_iff titledEntry_reachable
    (fun _ _ hd => (Option.some.inj hd).symm) hrun rfl hcommit ["title"]
  exact ⟨u, v, existing, restored, target, hrun, h⟩

/-- **A restore leaves a field that was added since.** -/
theorem restore_leaves_added_field : ¬ ∀ (s u v : CmsState) (call ifVersion version : ℕ)
    (checks : JsonObject → Option JsonObject) (loaded written : Instant) (trace : List CmsMove)
    (fields : List String), cmsMachine.Reachable CmsState.Created s →
    (∀ d d', checks d = some d' → d' = d) → cmsMachine.run s trace = some u →
    trace.filter (·.call = call) = restoreMoves call ifVersion version checks loaded written →
    cmsMachine.step u (.commit call) = some v → ∀ restored ∈ v.store.row, ∀ target ∈ v.store.log,
    target.version = version → RestoredTo fields restored.data target.data := by
  intro hrestores
  obtain ⟨u, v, hrun, hcommit, hrow, hlog⟩ := restoredAfterSubtitle_run
  obtain ⟨restored, hrestored, hsubtitle⟩ := Option.map_eq_some_iff.1 hrow
  have hfirst : (1, false) ∈ v.store.log.map fun r => (r.version, (r.data.lookup "subtitle").isSome) :=
    hlog ▸ List.mem_cons_self
  obtain ⟨target, htarget, hfields⟩ := List.mem_map.1 hfirst
  obtain ⟨hversion, hnone⟩ := Prod.mk.inj hfields
  have hclean := (hrestores _ _ _ _ _ _ _ _ _ _ ["title"] titledEntry_reachable
    (fun _ _ hd => (Option.some.inj hd).symm) hrun rfl hcommit restored hrestored target htarget
    hversion).clean "subtitle" hsubtitle
  rw [hnone] at hclean
  cases hclean

end Munin
