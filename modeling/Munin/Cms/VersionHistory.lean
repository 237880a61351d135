import Munin.Cms.Entry
import Munin.Foundations.VersionStages

/-!
# The version history of a CMS entry

The lock of the row lets one transaction write at a time, and the unique index refuses the snapshot
of one that has read an older version. So the versions of an entry are numbered without gaps, the
last one is that of the entry, and whatever is accepted has acted on the entry as it was then.

* **`cmsWrites`** — what the transactions write, as writes of a row with a log of its versions.
* **`Accepted`** — a commit is about the entry as it is, which becomes what was written.
* **`version_history_linear`** — the law, for every state reached.
-/

namespace Munin

open Foundations VersionLog

namespace CmsWrite

/-- The worker's write is of an entry whose schedule is due. -/
def DueOf (w : CmsWrite) (existing : CmsEntry) : Prop :=
  w = .promote → existing.status = .scheduled ∧ existing.scheduledAt.isSome

/-- Every write has the next version. -/
@[simp]
theorem set_version (w : CmsWrite) (existing current : CmsEntry) (now : Instant) :
    (w.set existing now current).version = existing.version + 1 := by
  match w with
  | .edit .. | .promote => rfl
  | .transition status .. => cases status <;> rfl

/-- So has every snapshot. -/
theorem snapshot_version (w : CmsWrite) (existing current : CmsEntry) (now : Instant) :
    (w.snapshot existing (w.set existing now current)).version = existing.version + 1 := by
  cases w with
  | promote => rfl
  | edit slug locale data => rfl
  | transition => exact set_version _ existing current now

/-- Of an entry that is as it was read, the snapshot is that of the entry as written. -/
theorem snapshot_eq (w : CmsWrite) (existing : CmsEntry) (now : Instant) :
    w.snapshot existing (w.set existing now existing) = (w.set existing now existing).snapshot := by
  cases w <;> rfl

end CmsWrite

/-- What the transactions on an entry write. -/
def cmsWrites : Writes CmsEntry CmsEntryVersion CmsWrite where
  number := CmsEntryVersion.version
  snap := CmsEntry.snapshot
  sets w existing current updated := ∃ now, updated = w.set existing now current
  entry w existing updated := w.snapshot existing updated
  admits w existing := w.DueOf existing
  number_snap := by
    rintro w existing current _ ⟨now, rfl⟩
    exact w.set_version existing current now
  number_entry := by
    rintro w existing current _ ⟨now, rfl⟩
    exact w.snapshot_version existing current now
  entry_eq := by
    rintro w existing _ ⟨now, rfl⟩
    exact w.snapshot_eq existing now

/-! ### What a statement can do -/

/-- **What a statement can do**, by the stage that its transaction has come to. -/
inductive CmsStep (s : CmsState) : CmsMove → CmsState → Prop
  | load {call : ℕ} {request : CmsRequest} {now : Instant} {c : CmsCall}
      (hcall : s.calls call = none)
      (hload : (s.store.read call).bind (request.load now ·) = some c) :
      CmsStep s (.load call request now) { s with calls := s.goTo call (some c) }
  | readTarget {call ifVersion version : ℕ} {target : CmsEntryVersion}
      (hcall : s.calls call = some (.restoring ifVersion version))
      (hfind : (s.store.readLog call).find? (·.version = version) = some target) :
      CmsStep s (.readTarget call)
        { s with calls := s.goTo call (some (.restoreWith ifVersion target.data)) }
  | reload {call ifVersion : ℕ} {edits : JsonObject → Option JsonObject} {data : JsonObject}
      {c : CmsCall} (hcall : s.calls call = some (.restoreWith ifVersion data))
      (hload : (s.store.read call).bind
        ((CmsRequest.update ifVersion none none (some data) edits).load 0 ·) = some c) :
      CmsStep s (.reload call edits) { s with calls := s.goTo call (some c) }
  | write {call : ℕ} {now : Instant} {w : CmsWrite} {existing updated : CmsEntry}
      {store : VersionLog CmsEntry CmsEntryVersion}
      (hcall : s.calls call = some (.loaded w existing))
      (hupdate : s.store.update call (fun current => w.set existing now current) =
        some (store, some updated)) :
      CmsStep s (.write call now) ⟨store, s.goTo call (some (.written w existing updated))⟩
  /-- The row is gone. -/
  | writeFailed {call : ℕ} {now : Instant} : CmsStep s (.write call now) (s.rollback call)
  | snapshot {call : ℕ} {w : CmsWrite} {existing updated : CmsEntry}
      {store : VersionLog CmsEntry CmsEntryVersion}
      (hcall : s.calls call = some (.written w existing updated))
      (hrecord : s.store.record call CmsEntryVersion.version (w.snapshot existing updated) =
        some (store, true)) :
      CmsStep s (.snapshot call) ⟨store, s.goTo call (some (.snapshotted w existing updated))⟩
  /-- The version is there already. -/
  | snapshotFailed {call : ℕ} : CmsStep s (.snapshot call) (s.rollback call)
  | commit {call : ℕ} {w : CmsWrite} {existing updated : CmsEntry}
      (hcall : s.calls call = some (.snapshotted w existing updated)) :
      CmsStep s (.commit call) ⟨s.store.commit call, s.goTo call none⟩
  | abort {call : ℕ} : CmsStep s (.abort call) (s.rollback call)

theorem cmsStep_of_step {s s' : CmsState} {m : CmsMove} (h : s.step m = some s') : CmsStep s m s' := by
  cases m with
  | load call request now =>
    rw [CmsState.step] at h
    split at h
    · obtain ⟨c, hload, rfl⟩ := Option.map_eq_some_iff.1 h
      exact .load ‹_› hload
    · cases h
  | readTarget call =>
    rw [CmsState.step] at h
    split at h
    · obtain ⟨target, hfind, rfl⟩ := Option.map_eq_some_iff.1 h
      exact .readTarget ‹_› hfind
    · cases h
  | reload call edits =>
    rw [CmsState.step] at h
    split at h
    · obtain ⟨c, hload, rfl⟩ := Option.map_eq_some_iff.1 h
      exact .reload ‹_› hload
    · cases h
  | write call now =>
    rw [CmsState.step] at h
    split at h
    · obtain ⟨⟨store, written⟩, hupdate, h⟩ := Option.map_eq_some_iff.1 h
      cases written with
      | none => exact h ▸ .writeFailed
      | some updated => exact h ▸ .write ‹_› hupdate
    · cases h
  | snapshot call =>
    rw [CmsState.step] at h
    split at h
    · obtain ⟨⟨store, done⟩, hrecord, h⟩ := Option.map_eq_some_iff.1 h
      cases done with
      | false => exact h ▸ .snapshotFailed
      | true => exact h ▸ .snapshot ‹_› hrecord
    · cases h
  | commit call =>
    rw [CmsState.step] at h
    split at h
    · exact Option.some.inj h ▸ .commit ‹_›
    · cases h
  | abort call =>
    rw [CmsState.step] at h
    split at h
    · exact Option.some.inj h ▸ .abort
    · cases h

/-- The stage of a transaction. -/
def cmsStage : Option CmsCall → Stage CmsWrite CmsEntry
  | none | some (.restoring ..) | some (.restoreWith ..) => .outside
  | some (.loaded w existing) => .loaded w existing
  | some (.written w existing updated) => .written w existing updated
  | some (.snapshotted w existing updated) => .recorded w existing updated

/-- The invariant. -/
structure CmsOk (s : CmsState) : Prop where
  row : ∃ e, s.store.row = some e
  coherent : Coherent cmsWrites s.store fun t => cmsStage (s.calls t)

section Keeps

variable {s s' : CmsState} {call t : ℕ}

theorem cmsStage_goTo (s : CmsState) (call : ℕ) (c : Option CmsCall) :
    (fun t => cmsStage (s.goTo call c t)) =
      Function.update (fun t => cmsStage (s.calls t)) call (cmsStage c) :=
  Function.comp_update cmsStage s.calls call c

variable {c : Option CmsCall} {request : CmsRequest}

/-- A transaction that goes on without a statement that writes. -/
theorem CmsOk.stay (hs : CmsOk s) (hc : StageOk cmsWrites s.store call (cmsStage c)) :
    CmsOk { s with calls := s.goTo call c } :=
  ⟨hs.row, cmsStage_goTo s call c ▸ hs.coherent.stay hc⟩

theorem CmsOk.rollback (hs : CmsOk s) (call : ℕ) : CmsOk (s.rollback call) := by
  obtain ⟨e, he⟩ := hs.row
  exact ⟨⟨e, (abort_row _ _).trans he⟩, cmsStage_goTo s call none ▸ hs.coherent.rollback call⟩

theorem CmsOk.stage (hs : CmsOk s) (h : s.calls call = c) :
    StageOk cmsWrites s.store call (cmsStage c) := by
  rw [← h]
  exact hs.coherent.stages call

variable {now : Instant}

/-- What a request has made of the entry as it is. -/
theorem CmsRequest.load_ok {e : CmsEntry} {c : CmsCall}
    {L : VersionLog CmsEntry CmsEntryVersion} (h : request.load now e = some c)
    (hout : L.Outside t) (hrow : L.row = some e) :
    StageOk cmsWrites L t (cmsStage (some c)) := by
  have hbehind : L.Behind cmsWrites.number cmsWrites.snap e := behind_of_row hrow
  match request with
  | .update ifVersion slug locale data edits =>
    rw [CmsRequest.load.eq_def] at h
    dsimp only at h
    split at h
    · obtain ⟨newData, -, rfl⟩ := Option.map_eq_some_iff.1 h
      exact ⟨hout, hbehind, fun hw => by cases hw⟩
    · cases h
  | .transition ifVersion status scheduledAt publishedAt reason =>
    rw [CmsRequest.load.eq_def] at h
    dsimp only at h
    split at h
    · obtain rfl := Option.some.inj h
      exact ⟨hout, hbehind, fun hw => by cases hw⟩
    · cases h
  | .restore ifVersion version =>
    rw [CmsRequest.load.eq_def] at h
    dsimp only at h
    split at h
    · obtain rfl := Option.some.inj h
      exact hout
    · cases h
  | .promote =>
    rw [CmsRequest.load.eq_def] at h
    dsimp only at h
    split at h
    · rename_i hdue
      obtain rfl := Option.some.inj h
      refine ⟨hout, hbehind, fun _ => ⟨hdue.1, ?_⟩⟩
      obtain ⟨due, hsome, -⟩ := (Option.any_eq_true _ _).1 hdue.2
      rw [hsome]
      rfl
    · cases h

/-- What a commit accepts: it has acted on the entry that is there, with the next version; and a
worker's entry is still due. -/
def Accepted (s : CmsState) (call : ℕ) (s' : CmsState) : Prop :=
  ∃ w existing now, s.calls call =
      some (.snapshotted w existing (w.set existing now existing)) ∧
    s.store.row = some existing ∧ s'.store.row = some (w.set existing now existing) ∧
      (w.set existing now existing).version = existing.version + 1 ∧ w.DueOf existing

theorem CmsOk.commit (hs : CmsOk s) (h : s.step (.commit call) = some s') :
    CmsOk s' ∧ Accepted s call s' := by
  cases cmsStep_of_step h with
  | @commit _ w existing updated hcall =>
    have hstage : cmsStage (s.calls call) = .recorded w existing updated :=
      congrArg cmsStage hcall
    obtain ⟨hrow, hrow', hdue, now, rfl⟩ := hs.coherent.recorded hstage
    refine ⟨⟨⟨_, hrow'⟩, cmsStage_goTo s call none ▸ hs.coherent.commit hstage⟩, ?_⟩
    exact ⟨w, existing, now, hcall, hrow, hrow', w.set_version existing existing now, hdue⟩

/-- **Every statement** keeps the invariant. -/
theorem CmsOk.step (hs : CmsOk s) {a : CmsMove} (h : s.step a = some s') : CmsOk s' := by
  cases cmsStep_of_step h with
  | load hcall hload | reload hcall hload =>
    have hout : s.store.Outside _ := hs.stage hcall
    obtain ⟨e, he, hload⟩ := Option.bind_eq_some_iff.1 hload
    exact hs.stay (CmsRequest.load_ok hload hout (hout.read_eq.symm.trans he))
  | readTarget hcall hfind =>
    have hout : s.store.Outside _ := hs.stage hcall
    exact hs.stay hout
  | @write call now w existing updated store hcall hupdate =>
    obtain ⟨hout, -⟩ : s.store.Outside call ∧ _ := hs.stage hcall
    obtain ⟨-, -, hstore⟩ := hout.update_eq_some hupdate
    obtain ⟨e, he⟩ := hs.row
    have hstage : cmsStage (s.calls call) = .loaded w existing := congrArg cmsStage hcall
    have hwritten := hs.coherent.update hstage (fun c => ⟨now, rfl⟩) hupdate
    refine ⟨⟨e, ?_⟩, cmsStage_goTo s call _ ▸ hwritten⟩
    rw [hstore]
    exact he
  | @snapshot call w existing updated store hcall hrecord =>
    obtain ⟨hlock, -⟩ : s.store.lock = _ ∧ _ := hs.stage hcall
    obtain ⟨e, he⟩ := hs.row
    have hstage : cmsStage (s.calls call) = .written w existing updated :=
      congrArg cmsStage hcall
    have hrecorded := hs.coherent.record hstage hrecord
    refine ⟨⟨e, ?_⟩, cmsStage_goTo s call _ ▸ hrecorded⟩
    rcases record_eq_some hlock hrecord with ⟨hfalse, -⟩ | ⟨-, hstore, -⟩
    · cases hfalse
    · rw [hstore]
      exact he
  | writeFailed | snapshotFailed | abort => exact hs.rollback _
  | commit hcall => exact (hs.commit h).1

end Keeps

theorem cmsOk_of_reachable {s : CmsState} (h : cmsMachine.Reachable CmsState.Created s) :
    CmsOk s := by
  refine h.invariant ?_ fun u v a _ hu _ hstep => hu.step hstep
  rintro _ ⟨e, hversion, rfl⟩
  refine ⟨⟨e, rfl⟩, ⟨fun a ha => ?_, fun a ha => ?_⟩, fun t l hl => by cases hl⟩
  · obtain rfl := Option.some.inj ha
    simp [cmsWrites, CmsEntry.snapshot, hversion]
  · obtain rfl := Option.some.inj ha
    rfl

/-- The stored versions: from the first on without gaps, the last one with the entry's data and
status. -/
def History (s : CmsState) : Prop :=
  ∃ e, s.store.row = some e ∧ s.store.log.map (·.version) = List.range' 1 e.version ∧
    s.store.log.getLast? = some ⟨e.version, e.status, e.data⟩

/-- **The version history is linear and loses no write.** In every state that the transactions on an
entry can reach, its versions are numbered without gaps, and the last one is the entry's; and what
is committed has acted on the entry as it is, so that nothing accepted is lost, and the worker
publishes what is still due. -/
theorem version_history_linear {s : CmsState} (h : cmsMachine.Reachable CmsState.Created s) :
    History s ∧ ∀ call s', cmsMachine.step s (.commit call) = some s' → Accepted s call s' := by
  have hs := cmsOk_of_reachable h
  obtain ⟨e, he⟩ := hs.row
  have hsound := hs.coherent.sound
  exact ⟨⟨e, he, hsound.numbers e he, hsound.newest e he⟩, fun call s' h => (hs.commit h).2⟩

/-- An entry that has just been created. -/
def createdEntry : CmsState where
  store := { row := some { slug := "a", locale := "en", data := [] }, log := [⟨1, .draft, []⟩] }

/-- Two requests have read the first version; the one that comes second is refused, and an entry
that is scheduled is published by the worker. -/
def editedThenPromoted : List CmsMove :=
  [.load 0 (.update 1 none none none some) 0, .load 1 (.transition 1 .published none none none) 0,
    .write 0 0, .snapshot 0, .commit 0, .write 1 0, .snapshot 1,
    .load 2 (.transition 2 .scheduled (some 5) none none) 0, .write 2 0, .snapshot 2, .commit 2,
    .load 3 .promote 6, .write 3 6, .snapshot 3]

/-- The history of that entry. -/
theorem version_history_linear_sample : ∃ s s', cmsMachine.Reachable CmsState.Created s ∧
    cmsMachine.step s (.commit 3) = some s' ∧
      s'.store.log.map (fun v => (v.version, v.status)) =
        [(1, .draft), (2, .draft), (3, .scheduled), (4, .published)] ∧
      History s ∧ Accepted s 3 s' := by
  have hrun : (cmsMachine.run createdEntry (editedThenPromoted ++ [.commit 3])).map (fun s =>
      s.store.log.map fun v => (v.version, v.status)) =
      some [(1, .draft), (2, .draft), (3, .scheduled), (4, .published)] := by decide +kernel
  obtain ⟨s', hs', hlog⟩ := Option.map_eq_some_iff.1 hrun
  obtain ⟨s, hs, hcommit⟩ := (Machine.run_concat_eq_some _).1 hs'
  have hreach : cmsMachine.Reachable CmsState.Created s :=
    Machine.reachable_of_run ⟨_, rfl, rfl⟩ hs
  obtain ⟨hhistory, haccepted⟩ := version_history_linear hreach
  exact ⟨s, s', hreach, hcommit, hlog, hhistory, haccepted 3 s' hcommit⟩

end Munin
