import Munin.Kb.Document

/-!
# Optimistic locking of a document

The unique index refuses the write of a request that names a version which is not the latest any
more. Nothing refuses its deletion: `removeDocument` deletes by the id, whatever the version is by
then.

* **`ActedOnVersion`** — what is committed has acted on the version that its request names.
* **`DeletesAsRead`** — a deletion finds the version that its request has read.
* **`requests_act_on_version`** — in runs that meet the condition, every request has acted on its
  version, and the versions are numbered without gaps.
* **`delete_of_later_version`** — a deletion that removes what was written after its version.
-/

namespace Munin

open Foundations VersionLog

/-- What the transactions on a document write. -/
def kbWrites : Writes KbDocument KbVersion KbWrite where
  number := KbVersion.version
  snap := KbDocument.snapshot
  sets w existing current updated := updated = w.set existing current
  entry _ _ updated := updated.snapshot
  admits _ _ := True
  number_snap := by
    rintro w existing current _ rfl
    cases w <;> rfl
  number_entry := by
    rintro w existing current _ rfl
    cases w <;> rfl
  entry_eq _ := rfl

/-! ### What a statement can do -/

/-- **What a statement can do**, by the phase that its transaction has come to. -/
inductive KbStep (s : KbState) : KbMove → KbState → Prop
  | load {call : ℕ} {request : KbRequest} {c : KbCall} (hcall : s.calls call = none)
      (hload : (s.store.read call).bind (request.load ·) = some c) :
      KbStep s (.load call request) { s with calls := s.goTo call (some c) }
  | readTarget {call ifVersion version : ℕ} {existing : KbDocument} {snap : KbVersion}
      (hcall : s.calls call = some ⟨ifVersion, .restoring existing version⟩) :
      KbStep s (.readTarget call)
        { s with calls := s.goTo call (some ⟨ifVersion, .loaded (.restore snap) existing⟩) }
  | reload {call ifVersion : ℕ} {body : String} {c : KbCall}
      (hcall : s.calls call = some ⟨ifVersion, .revising body⟩)
      (hload : (s.store.read call).bind
        ((KbRequest.update ifVersion none (fun _ => some body) none none none).load ·) = some c) :
      KbStep s (.reload call) { s with calls := s.goTo call (some c) }
  | write {call ifVersion : ℕ} {w : KbWrite} {existing updated : KbDocument}
      {store : VersionLog KbDocument KbVersion}
      (hcall : s.calls call = some ⟨ifVersion, .loaded w existing⟩)
      (hupdate : s.store.update call (fun current => w.set existing current) =
        some (store, some updated)) :
      KbStep s (.write call) ⟨store, s.goTo call (some ⟨ifVersion, .written w existing updated⟩)⟩
  /-- The row is gone. -/
  | writeFailed {call : ℕ} : KbStep s (.write call) (s.rollback call)
  | snapshot {call ifVersion : ℕ} {w : KbWrite} {existing updated : KbDocument}
      {store : VersionLog KbDocument KbVersion}
      (hcall : s.calls call = some ⟨ifVersion, .written w existing updated⟩)
      (hrecord : s.store.record call KbVersion.version updated.snapshot = some (store, true)) :
      KbStep s (.snapshot call)
        ⟨store, s.goTo call (some ⟨ifVersion, .snapshotted w existing updated⟩)⟩
  /-- The version is there already. -/
  | snapshotFailed {call : ℕ} : KbStep s (.snapshot call) (s.rollback call)
  | delete {call ifVersion : ℕ} {existing : KbDocument} {done : Bool}
      {store : VersionLog KbDocument KbVersion}
      (hcall : s.calls call = some ⟨ifVersion, .removing existing⟩)
      (hdelete : s.store.delete call = some (store, done)) :
      KbStep s (.delete call) ⟨store, s.goTo call (some ⟨ifVersion, .removed existing done⟩)⟩
  | commit {call ifVersion : ℕ} {w : KbWrite} {existing updated : KbDocument}
      (hcall : s.calls call = some ⟨ifVersion, .snapshotted w existing updated⟩) :
      KbStep s (.commit call) ⟨s.store.commit call, s.goTo call none⟩
  | commitDelete {call ifVersion : ℕ} {existing : KbDocument} {done : Bool}
      (hcall : s.calls call = some ⟨ifVersion, .removed existing done⟩) :
      KbStep s (.commit call) ⟨s.store.commit call, s.goTo call none⟩
  | abort {call : ℕ} : KbStep s (.abort call) (s.rollback call)

theorem kbStep_of_step {s s' : KbState} {m : KbMove} (h : s.step m = some s') : KbStep s m s' := by
  cases m with
  | load call request =>
    rw [KbState.step] at h
    split at h
    · obtain ⟨c, hload, rfl⟩ := Option.map_eq_some_iff.1 h
      exact .load ‹_› hload
    · cases h
  | readTarget call =>
    rw [KbState.step] at h
    split at h
    · obtain ⟨snap, -, rfl⟩ := Option.map_eq_some_iff.1 h
      exact .readTarget ‹_›
    · cases h
  | reload call =>
    rw [KbState.step] at h
    split at h
    · obtain ⟨c, hload, rfl⟩ := Option.map_eq_some_iff.1 h
      exact .reload ‹_› hload
    · cases h
  | write call =>
    rw [KbState.step] at h
    split at h
    · obtain ⟨⟨store, written⟩, hupdate, h⟩ := Option.map_eq_some_iff.1 h
      cases written with
      | none => exact h ▸ .writeFailed
      | some updated => exact h ▸ .write ‹_› hupdate
    · cases h
  | snapshot call =>
    rw [KbState.step] at h
    split at h
    · obtain ⟨⟨store, done⟩, hrecord, h⟩ := Option.map_eq_some_iff.1 h
      cases done with
      | false => exact h ▸ .snapshotFailed
      | true => exact h ▸ .snapshot ‹_› hrecord
    · cases h
  | delete call =>
    rw [KbState.step] at h
    split at h
    · obtain ⟨⟨store, done⟩, hdelete, rfl⟩ := Option.map_eq_some_iff.1 h
      exact .delete ‹_› hdelete
    · cases h
  | commit call =>
    rw [KbState.step] at h
    split at h
    · exact Option.some.inj h ▸ .commit ‹_›
    · exact Option.some.inj h ▸ .commitDelete ‹_›
    · cases h
  | abort call =>
    rw [KbState.step] at h
    split at h
    · exact Option.some.inj h ▸ .abort
    · cases h

/-! ### The invariant -/

/-- The stage of a transaction. -/
def KbPhase.stage : KbPhase → Stage KbWrite KbDocument
  | .restoring existing _ | .removing existing => .read existing
  | .loaded w existing => .loaded w existing
  | .written w existing updated => .written w existing updated
  | .snapshotted w existing updated => .recorded w existing updated
  | .removed existing true => .removed existing
  | .revising _ | .removed _ false => .outside

def kbStage : Option KbCall → Stage KbWrite KbDocument
  | some c => c.phase.stage
  | none => .outside

/-- The document that a transaction has read is in the version that its request names, and if it is
to be removed, it is removed. -/
def KbCall.Named (c : KbCall) : Prop :=
  match c.phase with
  | .restoring existing _ | .loaded _ existing | .written _ existing _
  | .snapshotted _ existing _ | .removing existing => existing.version = c.ifVersion
  | .removed existing done => existing.version = c.ifVersion ∧ done = true
  | .revising _ => True

/-- The invariant. -/
structure KbOk (s : KbState) : Prop where
  coherent : Coherent kbWrites s.store fun t => kbStage (s.calls t)
  named : ∀ t c, s.calls t = some c → c.Named

/-- What a request is about to remove. -/
def KbCall.toRemove (c : KbCall) : Option KbDocument :=
  match c.phase with
  | .removing existing => some existing
  | _ => none

/-- A deletion finds the version that its request has read. -/
def DeletesAsRead (s : KbState) : KbMove → Prop
  | .delete call => ∀ c ∈ s.calls call, ∀ existing ∈ c.toRemove,
      s.store.row.any (·.version = existing.version) = true
  | _ => True

instance (s : KbState) : ∀ a, Decidable (DeletesAsRead s a)
  | .delete call => inferInstanceAs (Decidable (∀ c ∈ s.calls call, _))
  | .load .. | .readTarget _ | .reload _ | .write _ | .snapshot _ | .commit _ | .abort _ =>
    inferInstanceAs (Decidable True)

/-- The stored versions: from the first on without gaps, the last one that of the document. -/
def KbHistory (s : KbState) : Prop :=
  ∀ doc ∈ s.store.row, s.store.log.map (·.version) = List.range' 1 doc.version ∧
    s.store.log.getLast? = some doc.snapshot

/-- What a transaction commits has acted on the document in the version that its request names. -/
def ActedOnVersion (s : KbState) (call : ℕ) : Prop :=
  ∀ c ∈ s.calls call, ∃ doc ∈ s.store.row, doc.version = c.ifVersion

/-! ### What the statements keep -/

section Keeps

variable {s s' : KbState} {call t : ℕ}

theorem kbStage_goTo (s : KbState) (call : ℕ) (c : Option KbCall) :
    (fun t => kbStage (s.goTo call c t)) =
      Function.update (fun t => kbStage (s.calls t)) call (kbStage c) :=
  Function.comp_update kbStage s.calls call c

variable {c : Option KbCall}

/-- What transactions name, after one has moved on. -/
theorem named_goTo (hs : KbOk s) (hc : ∀ d ∈ c, d.Named) (t : ℕ) (d : KbCall)
    (h : s.goTo call c t = some d) : d.Named := by
  rw [KbState.goTo] at h
  by_cases ht : t = call
  · subst ht
    rw [Function.update_self] at h
    exact hc d h
  · rw [Function.update_of_ne ht] at h
    exact hs.named t d h

theorem KbOk.stage (hs : KbOk s) (h : s.calls call = c) :
    StageOk kbWrites s.store call (kbStage c) := by
  rw [← h]
  exact hs.coherent.stages call

/-- A transaction that goes on with the version that its request names. -/
theorem KbOk.goTo (hs : KbOk s) {store : VersionLog KbDocument KbVersion} {c : KbCall}
    (hcoherent : Coherent kbWrites store
      (Function.update (fun t => kbStage (s.calls t)) call c.phase.stage)) (hnamed : c.Named) :
    KbOk ⟨store, s.goTo call (some c)⟩ where
  coherent := kbStage_goTo s call (some c) ▸ hcoherent
  named := named_goTo hs fun d hd => Option.some.inj hd ▸ hnamed

/-- A transaction that goes on without a statement that writes. -/
theorem KbOk.stay (hs : KbOk s) {c : KbCall} (hstage : StageOk kbWrites s.store call c.phase.stage)
    (hnamed : c.Named) : KbOk { s with calls := s.goTo call (some c) } :=
  hs.goTo (hs.coherent.stay hstage) hnamed

theorem KbOk.rollback (hs : KbOk s) (call : ℕ) : KbOk (s.rollback call) where
  coherent := kbStage_goTo s call none ▸ hs.coherent.rollback call
  named := named_goTo hs fun d hd => by cases hd

/-- What a request has made of the document as it is. -/
theorem KbRequest.load_ok {request : KbRequest} {doc : KbDocument} {c : KbCall}
    {L : VersionLog KbDocument KbVersion} (h : request.load doc = some c) (hout : L.Outside t)
    (hrow : L.row = some doc) : StageOk kbWrites L t c.phase.stage ∧ c.Named := by
  have hbehind : L.Behind kbWrites.number kbWrites.snap doc := behind_of_row hrow
  rw [KbRequest.load] at h
  split at h
  · rename_i hversion
    obtain ⟨phase, hphase, rfl⟩ := Option.map_eq_some_iff.1 h
    cases request with
    | update ifVersion title replaceBodyText sourceUrl audiences tags =>
      obtain ⟨body, -, rfl⟩ := Option.map_eq_some_iff.1 hphase
      exact ⟨⟨hout, hbehind, trivial⟩, hversion⟩
    | restore ifVersion version =>
      obtain rfl := Option.some.inj hphase
      exact ⟨⟨hout, hbehind⟩, hversion⟩
    | revise ifVersion body =>
      obtain rfl := Option.some.inj hphase
      exact ⟨hout, trivial⟩
    | remove by' ifVersion =>
      rw [KbRequest.begins.eq_def] at hphase
      dsimp only at hphase
      split at hphase
      · obtain rfl := Option.some.inj hphase
        exact ⟨⟨hout, hbehind⟩, hversion⟩
      · cases hphase
  · cases h

theorem KbOk.commit (hs : KbOk s) (h : s.step (.commit call) = some s') :
    KbOk s' ∧ ActedOnVersion s call := by
  cases kbStep_of_step h with
  | @commit _ ifVersion w existing updated hcall =>
    have hversion : existing.version = ifVersion := hs.named call _ hcall
    have hstage : kbStage (s.calls call) = .recorded w existing updated := congrArg kbStage hcall
    refine ⟨⟨kbStage_goTo s call none ▸ hs.coherent.commit hstage,
      named_goTo hs fun d hd => by cases hd⟩, fun c hc => ?_⟩
    obtain rfl := Option.some.inj (hcall.symm.trans hc)
    exact ⟨existing, (hs.coherent.recorded hstage).1, hversion⟩
  | @commitDelete _ ifVersion existing done hcall =>
    obtain ⟨hversion, rfl⟩ : existing.version = ifVersion ∧ done = true := hs.named call _ hcall
    have hstage : kbStage (s.calls call) = .removed existing := congrArg kbStage hcall
    obtain ⟨-, hrow⟩ : StageOk kbWrites s.store call (.removed existing) := hs.stage hcall
    refine ⟨⟨kbStage_goTo s call none ▸ hs.coherent.commitDelete hstage,
      named_goTo hs fun d hd => by cases hd⟩, fun c hc => ?_⟩
    obtain rfl := Option.some.inj (hcall.symm.trans hc)
    exact ⟨existing, hrow, hversion⟩

/-- **Every statement** that meets the condition keeps the invariant: a deletion that finds the
version it has read removes the document that it has read. -/
theorem KbOk.step (hs : KbOk s) {a : KbMove} (hok : DeletesAsRead s a)
    (h : s.step a = some s') : KbOk s' := by
  cases kbStep_of_step h with
  | load hcall hload | reload hcall hload =>
    have hout : s.store.Outside _ := hs.stage hcall
    obtain ⟨doc, hdoc, hload⟩ := Option.bind_eq_some_iff.1 hload
    obtain ⟨hstage, hnamed⟩ := KbRequest.load_ok hload hout (hout.read_eq.symm.trans hdoc)
    exact hs.stay hstage hnamed
  | @readTarget call ifVersion version existing snap hcall =>
    obtain ⟨hout, hbehind⟩ : StageOk kbWrites s.store call (.read existing) := hs.stage hcall
    have hversion : existing.version = ifVersion := hs.named call _ hcall
    exact hs.stay ⟨hout, hbehind, trivial⟩ hversion
  | @write call ifVersion w existing updated store hcall hupdate =>
    have hversion : existing.version = ifVersion := hs.named call _ hcall
    have hstage : kbStage (s.calls call) = .loaded w existing := congrArg kbStage hcall
    exact hs.goTo (hs.coherent.update hstage (fun _ => rfl) hupdate) hversion
  | @snapshot call ifVersion w existing updated store hcall hrecord =>
    have hversion : existing.version = ifVersion := hs.named call _ hcall
    have hstage : kbStage (s.calls call) = .written w existing updated := congrArg kbStage hcall
    exact hs.goTo (hs.coherent.record hstage hrecord) hversion
  | @delete call ifVersion existing done store hcall hdelete =>
    have hversion : existing.version = ifVersion := hs.named call _ hcall
    obtain ⟨doc, hdoc, hsame⟩ := (Option.any_eq_true _ _).1 (hok _ hcall existing rfl)
    rw [decide_eq_true_eq] at hsame
    obtain ⟨hout, -⟩ : StageOk kbWrites s.store call (.read existing) := hs.stage hcall
    obtain ⟨-, hdone, -⟩ := hout.delete_eq_some hdelete
    rw [hdoc, Option.isSome_some] at hdone
    subst hdone
    have hstage : kbStage (s.calls call) = .read existing := congrArg kbStage hcall
    exact hs.goTo (hs.coherent.delete hstage hdoc hsame.symm hdelete) ⟨hversion, rfl⟩
  | writeFailed | snapshotFailed | abort => exact hs.rollback _
  | commit hcall | commitDelete hcall => exact (hs.commit h).1

end Keeps

theorem kbOk_of_reaches {s : KbState} (h : kbMachine.Reaches KbState.Created DeletesAsRead s) :
    KbOk s := by
  refine h.invariant ?_ fun u v a _ hu hok hstep => hu.step hok hstep
  rintro _ ⟨doc, hversion, rfl⟩
  refine ⟨⟨⟨fun a ha => ?_, fun a ha => ?_⟩, fun t l hl => by cases hl⟩, fun t c hc => by cases hc⟩
  · obtain rfl := Option.some.inj ha
    simp [kbWrites, KbDocument.snapshot, hversion]
  · obtain rfl := Option.some.inj ha
    rfl

/-- **Requests act on the version that they name**, and the versions are numbered without gaps, in a
run in which every deletion finds the version that its request has read. -/
theorem requests_act_on_version {s : KbState}
    (h : kbMachine.Reaches KbState.Created DeletesAsRead s) : KbHistory s ∧
      ∀ call s', kbMachine.step s (.commit call) = some s' → ActedOnVersion s call := by
  have hs := kbOk_of_reaches h
  have hsound := hs.coherent.sound
  exact ⟨fun doc hdoc => ⟨hsound.numbers doc hdoc, hsound.newest doc hdoc⟩,
    fun call s' h => (hs.commit h).2⟩

/-! ### A deletion that comes late -/

/-- A document that has just been created. -/
def createdDocument : KbState where
  store := { row := some { id := "d", title := "a", body := "b" }
             log := [⟨1, "a", "b", ["admin"], []⟩] }

/-- A request to delete the first version has read it, and then another one writes the second. -/
def deletedLate : List KbMove :=
  [.load 0 (.remove .deleteDocument 1), .load 1 (.update 1 none (fun _ => some "c") none none none),
    .write 1, .snapshot 1, .commit 1, .delete 0]

/-- **A deletion removes a later version** than the one that its request names. -/
theorem delete_of_later_version : ∃ s s', kbMachine.Reachable KbState.Created s ∧
    kbMachine.step s (.commit 0) = some s' ∧ s.store.row.map (·.version) = some 2 ∧
      s'.store.row = none ∧ ¬ ActedOnVersion s 0 := by
  have hrun : (kbMachine.run createdDocument (deletedLate ++ [.commit 0])).map
      (·.store.row.isNone) = some true := by decide +kernel
  have hview : (kbMachine.run createdDocument deletedLate).map (fun s =>
      (s.store.row.map (·.version), (s.calls 0).map (·.ifVersion))) = some (some 2, some 1) := by
    decide +kernel
  obtain ⟨s', hs', hgone⟩ := Option.map_eq_some_iff.1 hrun
  obtain ⟨s, hs, hcommit⟩ := (Machine.run_concat_eq_some _).1 hs'
  rw [hs, Option.map_some, Option.some.injEq, Prod.mk.injEq] at hview
  obtain ⟨hversion, hnames⟩ := hview
  refine ⟨s, s', Machine.reachable_of_run ⟨_, rfl, rfl⟩ hs, hcommit, hversion,
    Option.isNone_iff_eq_none.1 hgone, fun hacted => ?_⟩
  obtain ⟨c, hc, hifVersion⟩ := Option.map_eq_some_iff.1 hnames
  obtain ⟨doc, hdoc, hsame⟩ := hacted c hc
  rw [Option.mem_def.1 hdoc, Option.map_some, Option.some.injEq] at hversion
  omega

/-- A request that names the first version writes the second, and one that names the second deletes
it. -/
def deletedInTurn : List KbMove :=
  [.load 1 (.update 1 none (fun _ => some "c") none none none), .write 1, .snapshot 1, .commit 1,
    .load 0 (.remove .deleteDocument 2), .delete 0]

/-- That deletion is of the version that it names. -/
theorem requests_act_on_version_sample :
    ∃ s s', kbMachine.Reaches KbState.Created DeletesAsRead s ∧
      kbMachine.step s (.commit 0) = some s' ∧ KbHistory s ∧ ActedOnVersion s 0 := by
  have hrun : (kbMachine.runUnder DeletesAsRead createdDocument deletedInTurn).map (fun s =>
      (kbMachine.step s (.commit 0)).isSome) = some true := by decide +kernel
  obtain ⟨s, hs, hcommits⟩ := Machine.exists_reaches_of_runUnder
    (show KbState.Created createdDocument from ⟨_, rfl, rfl⟩) hrun
  obtain ⟨s', hcommit⟩ := Option.isSome_iff_exists.1 hcommits
  obtain ⟨hhistory, hacted⟩ := requests_act_on_version hs
  exact ⟨s, s', hs, hcommit, hhistory, hacted 0 s' hcommit⟩

end Munin
