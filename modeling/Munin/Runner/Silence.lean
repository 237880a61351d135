import Munin.Runner.HandlerRun

/-!
# What an aborted run still does

A newer trigger aborts the run of its conversation. The run learns of it when it looks at the
signal, which it does after most of what it awaits, but not after all.

* **`StaysSilent`** — whatever is answered from here on, the run starts no call that changes the
  conversation.
* **`AbortChecked`** — the points from which the run looks at the signal before its next such
  call, or has none to make.
* **`silent_iff_abortChecked`** — a run that is aborted stays silent exactly if it is at such a
  point; `superseded_run_marks_spam` is a run that is not.
-/

namespace Munin

open Foundations

/-- **The law**, from the moment of the abort on. -/
def StaysSilent (deps : HandlerDeps) (s : HandlerRun) : Prop :=
  ∀ t, (handlerRuns deps).Reachable (· = s) t → t.changes = s.changes

/-- The points at which an abort is noticed in time. Three kinds are left out: the way to the gate
and its fallback, which only a greeting guards; the audit, whose actions are carried out unasked;
and whatever follows the first call of a sequence (the flag after a draft, the draft after a
refused reply, held actions and the note after a reply, the fallback after the last attempt). -/
def AbortChecked (deps : HandlerDeps) : RunPoint → Prop
  | .acquiring c | .describing c => deps.beforeGenerate = true → c.mode = .greet
  | .gating c => c.mode = .greet
  | .readingTopics _ _ _ | .auditing _ _ _ _ | .posting _ _ _ _ => False
  | .dispatching _ _ _ audit rest => dispatchAuditActions audit.topics rest = none
  | .drafting c _ => c.heldByHuman = true
  | .settling reply audit rest =>
    dispatchAuditActions audit.topics rest = none ∧ handoverReason reply audit = none
  | .closing (.retry c attempt _) => attempt + 1 < maxRetries ∨ c.mode = .greet
  | .closing (.break c _) | .closing (.again c _) => c.mode = .greet
  | _ => True

/-- Nothing is started on the way, and the abort is noticed in time from there too. -/
structure NextPoint.Quiet (deps : HandlerDeps) (next : NextPoint) : Prop where
  started : next.started = []
  point : AbortChecked deps next.point

section Aborted

variable (deps : HandlerDeps) (c : RunContext) (attempt : ℕ) (reply : AgentReply)

/-! ### What an aborted run does next -/

@[simp]
theorem iterateAgent_aborted (iteration : ℕ) (toolCalls : List ToolCall) :
    iterateAgent deps c true attempt iteration toolCalls = ⟨.closing .ret, []⟩ := by
  unfold iterateAgent
  split
  · rfl
  · rfl

@[simp]
theorem callTools_aborted (iteration : ℕ) (toolCalls calls : List ToolCall) :
    callTools deps c true attempt iteration toolCalls calls = ⟨.closing .ret, []⟩ := by
  cases calls with
  | nil => exact iterateAgent_aborted deps c attempt (iteration + 1) toolCalls
  | cons call rest => rfl

variable {deps c}

theorem quiet_ret : NextPoint.Quiet deps ⟨.closing .ret, []⟩ := ⟨rfl, trivial⟩

/-- A greeting looks at the signal before it falls back. -/
theorem fallBack_quiet (h : c.mode = .greet) (reason : String) :
    (fallBack c true reason).Quiet deps := by
  unfold fallBack
  rw [h]
  exact ⟨rfl, trivial⟩

/-- Every other mode falls back unasked. -/
theorem fallBack_started (h : c.mode ≠ .greet) (aborted : Bool) (reason : String) :
    (fallBack c aborted reason).started ≠ [] := by
  unfold fallBack
  cases hmode : c.mode with
  | greet => exact absurd hmode h
  | draftRequest => exact List.cons_ne_nil _ _
  | reply => exact List.cons_ne_nil _ _

theorem askGate_quiet (h : deps.beforeGenerate = true → c.mode = .greet) :
    (askGate deps c true).Quiet deps := by
  unfold askGate
  split
  · rename_i hgate
    exact ⟨rfl, h hgate⟩
  · exact ⟨rfl, trivial⟩

variable {rest : List AuditAction}

theorem dispatchAll_quiet {audit : AuditOutcome}
    (h : dispatchAuditActions audit.topics rest = none) :
    (dispatchAll c true attempt reply audit rest).Quiet deps := by
  unfold dispatchAll
  rw [h]
  exact quiet_ret

theorem settleAfterSend_quiet {audit : AuditOutcome}
    (h : dispatchAuditActions audit.topics rest = none)
    (hnote : handoverReason reply audit = none) :
    (settleAfterSend reply audit rest).Quiet deps := by
  unfold settleAfterSend
  rw [h, hnote]
  exact quiet_ret

theorem afterClose_quiet {next : AfterClose} (h : AbortChecked deps (.closing next)) :
    (afterClose true next).Quiet deps := by
  cases next with
  | ret => exact ⟨rfl, trivial⟩
  | «break» c reason => exact fallBack_quiet h reason
  | again c reason => exact ⟨rfl, h⟩
  | retry c attempt lastError =>
    rw [afterClose, afterAttempt]
    split_ifs with hleft
    · exact ⟨rfl, trivial⟩
    · exact fallBack_quiet (h.resolve_left hleft) _

end Aborted

/-! ### Silence -/

section Runs

variable {deps : HandlerDeps} {s t : HandlerRun}

variable {a : HandlerAnswer} {audit : AuditOutcome}

/-- **The step lemma**: from a point at which the abort is noticed in time, an answer starts
nothing and leads to another such point. -/
theorem proceed_quiet {mode : RunMode} {draft : DraftOptions} {p : RunPoint}
    {next : NextPoint} (hp : AbortChecked deps p)
    (h : proceed deps mode draft true p a = some next) : next.Quiet deps := by
  cases p with
  | debouncing | fallingBack | releasing =>
    cases a <;> simp only [proceed, Option.some.injEq, reduceCtorEq] at h <;> subst h <;>
      exact ⟨rfl, trivial⟩
  | parking | flagging | noting =>
    cases a <;> simp only [proceed, Option.some.injEq, reduceCtorEq] at h <;> subst h <;>
      exact quiet_ret
  | ended => cases h
  | readingTopics | auditing | posting => exact hp.elim
  | reading =>
    cases a <;> simp only [proceed, Option.some.injEq, reduceCtorEq] at h <;> subst h
    · exact ⟨rfl, trivial⟩
    · split <;> exact ⟨rfl, trivial⟩
  | acquiring c =>
    cases a <;> simp only [proceed, Option.some.injEq, reduceCtorEq] at h <;> subst h
    · exact ⟨rfl, trivial⟩
    · split_ifs
      · exact ⟨rfl, hp⟩
      · exact askGate_quiet hp
      · exact ⟨rfl, trivial⟩
  | describing c =>
    cases a <;> simp only [proceed, Option.some.injEq, reduceCtorEq] at h <;> subst h
    · exact askGate_quiet hp
    · exact ⟨rfl, trivial⟩
  | gating c =>
    cases a <;> simp only [proceed, Option.some.injEq, reduceCtorEq] at h <;> subst h
    · exact ⟨rfl, trivial⟩
    · split_ifs
      · exact ⟨rfl, trivial⟩
      · split
        · exact ⟨rfl, trivial⟩
        · exact fallBack_quiet hp _
  | opening c attempt =>
    cases a <;> simp only [proceed, Option.some.injEq, reduceCtorEq] at h <;> subst h <;>
      exact ⟨rfl, trivial⟩
  | listing c attempt =>
    cases a <;> simp only [proceed, Option.some.injEq, reduceCtorEq] at h <;> subst h
    · rw [iterateAgent_aborted]
      exact quiet_ret
    · exact quiet_ret
  | generating c attempt iteration toolCalls =>
    cases a <;> simp only [proceed, Option.some.injEq, reduceCtorEq] at h <;> subst h
    · exact quiet_ret
    · split_ifs
      · rw [callTools_aborted]
        exact quiet_ret
      · exact quiet_ret
  | calling c attempt iteration toolCalls rest =>
    cases a <;> simp only [proceed, Option.some.injEq, reduceCtorEq] at h <;> subst h
    · rw [callTools_aborted]
      exact quiet_ret
    · exact quiet_ret
  | rewriting c attempt reply =>
    cases a <;> simp only [proceed, Option.some.injEq, reduceCtorEq] at h <;> subst h <;>
      exact quiet_ret
  | dispatching c attempt reply audit rest =>
    cases a <;> simp only [proceed, Option.some.injEq, reduceCtorEq] at h <;> subst h <;>
      exact dispatchAll_quiet attempt reply hp
  | drafting c attempt =>
    cases a <;> simp only [proceed, Option.some.injEq, reduceCtorEq] at h <;> subst h
    · have hheld : c.heldByHuman = true := hp
      rw [if_pos hheld]
      exact quiet_ret
    · exact quiet_ret
  | settling reply audit rest =>
    cases a <;> simp only [proceed, Option.some.injEq, reduceCtorEq] at h <;> subst h <;>
      exact settleAfterSend_quiet reply hp.1 hp.2
  | closing after =>
    cases a <;> simp only [proceed, Option.some.injEq, reduceCtorEq] at h <;> subst h <;>
      exact afterClose_quiet hp
  | backingOff c attempt left =>
    cases a <;> simp only [proceed, Option.some.injEq, reduceCtorEq] at h <;> subst h <;>
      exact ⟨rfl, trivial⟩

/-- An aborted run, at a point at which the abort is noticed in time. -/
structure Noticed (deps : HandlerDeps) (changes : List ConversationCall) (s : HandlerRun) :
    Prop where
  aborted : s.aborted = true
  point : AbortChecked deps s.point
  changes : s.changes = changes

theorem step_noticed {changes : List ConversationCall} {e : HandlerEvent}
    (hs : Noticed deps changes s) (h : s.step deps e = some t) : Noticed deps changes t := by
  cases e with
  | abort =>
    obtain rfl : s.abort = t := Option.some.inj h
    exact ⟨rfl, hs.point, hs.changes⟩
  | answer a =>
    obtain ⟨next, hnext, rfl⟩ := Option.map_eq_some_iff.1 h
    rw [hs.aborted] at hnext
    have hquiet := proceed_quiet hs.point hnext
    refine ⟨hs.aborted, hquiet.point, ?_⟩
    change s.changes ++ next.started = changes
    rw [hquiet.started, List.append_nil]
    exact hs.changes

/-- **Silence**: an abort that is noticed in time is the last thing that matters. -/
theorem staysSilent_of_abortChecked (h : AbortChecked deps s.point) :
    StaysSilent deps s.abort := by
  intro t ht
  have hnoticed : Noticed deps s.changes t := by
    refine Machine.Reaches.invariant ?_ ?_ ht
    · rintro _ rfl
      exact ⟨rfl, h, rfl⟩
    · intro u v e _ hu _ hv
      exact step_noticed hu hv
  exact hnoticed.changes

/-! ### What an abort that is not noticed leaves -/

/-- Some answers make the run start a call that changes the conversation. -/
def Talks (deps : HandlerDeps) (s : HandlerRun) : Prop :=
  ∃ t, (handlerRuns deps).Reachable (· = s) t ∧ s.changes.length < t.changes.length

theorem Talks.not_staysSilent (h : Talks deps s) : ¬ StaysSilent deps s := by
  intro hsilent
  obtain ⟨t, ht, hlen⟩ := h
  rw [hsilent t ht] at hlen
  exact Nat.lt_irrefl _ hlen

/-- The run after an answer. -/
def HandlerRun.go (s : HandlerRun) (next : NextPoint) : HandlerRun :=
  { s with point := next.point, changes := s.changes ++ next.started }

/-- A call is started at once. -/
theorem Talks.now {n : NextPoint} (h : proceed deps s.mode s.draft s.aborted s.point a = some n)
    (hstarted : n.started ≠ []) : Talks deps s := by
  have hstep : (handlerRuns deps).step s (.answer a) = some (s.go n) :=
    congrArg (Option.map _) h
  refine ⟨s.go n, .step (.start rfl) trivial hstep, ?_⟩
  rw [HandlerRun.go, List.length_append]
  exact Nat.lt_add_of_pos_right (List.length_pos_iff.2 hstarted)

/-- A call is started after the next answer, or later. -/
theorem Talks.later {n : NextPoint} (h : proceed deps s.mode s.draft s.aborted s.point a = some n)
    (ht : Talks deps (s.go n)) : Talks deps s := by
  have hstep : (handlerRuns deps).step s (.answer a) = some (s.go n) :=
    congrArg (Option.map _) h
  obtain ⟨t, hreach, hlen⟩ := ht
  have hgo : (handlerRuns deps).Reachable (· = s) (s.go n) :=
    .step (.start rfl) trivial hstep
  refine ⟨t, hgo.trans hreach, ?_⟩
  refine Nat.lt_of_le_of_lt ?_ hlen
  rw [HandlerRun.go, List.length_append]
  exact Nat.le_add_right _ _

variable {c : RunContext} {attempt : ℕ} {reply : AgentReply}

/-- The gate refuses, with a notice. -/
theorem talks_gating (hpoint : s.point = .gating c) (hmode : c.mode ≠ .greet) :
    Talks deps s := by
  refine Talks.now (a := .verdict false (some "")) ?_ (fallBack_started hmode s.aborted "")
  rw [hpoint]
  rfl

theorem talks_describing (hpoint : s.point = .describing c) (hgate : deps.beforeGenerate = true)
    (hmode : c.mode ≠ .greet) : Talks deps s := by
  refine Talks.later (a := .done) (n := ⟨.gating c, []⟩) ?_ (talks_gating rfl hmode)
  rw [hpoint]
  simp only [proceed, askGate, if_pos hgate]

theorem talks_acquiring (hpoint : s.point = .acquiring c) (hgate : deps.beforeGenerate = true)
    (hmode : c.mode ≠ .greet) : Talks deps s := by
  by_cases hchannel : truthy c.detail.channelId = true
  · refine Talks.later (a := .claim true) (n := ⟨.describing c, []⟩) ?_
      (talks_describing rfl hgate hmode)
    rw [hpoint]
    simp only [proceed, if_true, if_pos hchannel]
  · refine Talks.later (a := .claim true) (n := ⟨.gating c, []⟩) ?_ (talks_gating rfl hmode)
    rw [hpoint]
    simp only [proceed, if_true, if_neg hchannel, askGate, if_pos hgate]

/-- The audit finds spam. -/
theorem talks_auditing {topics : List ConversationTopic}
    (hpoint : s.point = .auditing c attempt reply topics) : Talks deps s := by
  refine Talks.now (a := .audited none [.markSpam ""])
    (n := afterVerdict c s.aborted attempt reply topics none [.markSpam ""]) ?_ ?_
  · rw [hpoint]
    rfl
  · have hspam : ∀ audit, (dispatchAll c s.aborted attempt reply audit [.markSpam ""]).started =
        [.changeStatus .spam none] := fun _ => rfl
    simp [afterVerdict, normaliseAction, AuditAction.isHandover, AuditAction.closesThread, hspam]

theorem talks_readingTopics (hpoint : s.point = .readingTopics c attempt reply) :
    Talks deps s := by
  refine Talks.later (a := .topics []) (n := ⟨.auditing c attempt reply [], []⟩) ?_
    (talks_auditing rfl)
  rw [hpoint]
  rfl

variable {rest : List AuditAction}

theorem talks_dispatching (hpoint : s.point = .dispatching c attempt reply audit rest)
    (h : dispatchAuditActions audit.topics rest ≠ none) : Talks deps s := by
  obtain ⟨⟨call, rest'⟩, hcall⟩ := Option.ne_none_iff_exists'.1 h
  refine Talks.now (a := .done) (n := ⟨.dispatching c attempt reply audit rest', [call]⟩) ?_
    (List.cons_ne_nil _ _)
  rw [hpoint]
  simp only [proceed, dispatchAll, hcall]

/-- The draft is flagged for review. -/
theorem talks_drafting (hpoint : s.point = .drafting c attempt) (h : ¬ c.heldByHuman = true) :
    Talks deps s := by
  refine Talks.now (a := .done)
    (n := ⟨.flagging, [.requestHandover "draft reply ready for review" none false]⟩) ?_
    (List.cons_ne_nil _ _)
  rw [hpoint]
  simp only [proceed, if_neg h]

/-- The conversation's agent has just been set to drafts only. -/
theorem talks_posting (hpoint : s.point = .posting c attempt reply audit) : Talks deps s := by
  refine Talks.now (a := .failed { message := "", code := some "agent_send_not_auto" })
    (n := parkForReview c attempt reply audit) ?_ (List.cons_ne_nil _ _)
  rw [hpoint]
  rfl

theorem talks_settling (hpoint : s.point = .settling reply audit rest)
    (h : ¬ (dispatchAuditActions audit.topics rest = none ∧ handoverReason reply audit = none)) :
    Talks deps s := by
  refine Talks.now (a := .done) (n := settleAfterSend reply audit rest) ?_ ?_
  · rw [hpoint]
    rfl
  · unfold settleAfterSend
    split
    · exact List.cons_ne_nil _ _
    · rename_i hdispatch
      split
      · rename_i hnote
        exact absurd ⟨hdispatch, hnote⟩ h
      · exact List.cons_ne_nil _ _

theorem talks_break {reason : String} (hpoint : s.point = .closing (.break c reason))
    (hmode : c.mode ≠ .greet) : Talks deps s := by
  refine Talks.now (a := .done) ?_ (fallBack_started hmode s.aborted reason)
  rw [hpoint]
  rfl

/-- The last attempt failed. -/
theorem talks_retry {lastError : String} (hpoint : s.point = .closing (.retry c attempt lastError))
    (h : ¬ (attempt + 1 < maxRetries ∨ c.mode = .greet)) : Talks deps s := by
  obtain ⟨hlast, hmode⟩ := not_or.1 h
  refine Talks.now (a := .done) ?_
    (fallBack_started hmode s.aborted (retriesExhausted lastError))
  rw [hpoint]
  simp only [proceed, afterClose, afterAttempt, dif_neg hlast]

theorem talks_closing {next : AfterClose} (hpoint : s.point = .closing next)
    (h : ¬ AbortChecked deps (.closing next)) : Talks deps s := by
  cases next with
  | ret => exact absurd trivial h
  | retry c attempt lastError => exact talks_retry hpoint h
  | «break» c reason => exact talks_break hpoint h
  | again c reason =>
    refine Talks.later (a := .done) (n := ⟨.closing (.break c reason), []⟩) ?_
      (talks_break rfl h)
    rw [hpoint]
    rfl

/-- **Noise**: an abort that is not noticed in time leaves a run that may still change the
conversation. -/
theorem talks_of_not_abortChecked (h : ¬ AbortChecked deps s.point) : Talks deps s := by
  cases hpoint : s.point with
  | acquiring c =>
    rw [hpoint] at h
    obtain ⟨hgate, hmode⟩ := Classical.not_imp.1 h
    exact talks_acquiring hpoint hgate hmode
  | describing c =>
    rw [hpoint] at h
    obtain ⟨hgate, hmode⟩ := Classical.not_imp.1 h
    exact talks_describing hpoint hgate hmode
  | gating c =>
    rw [hpoint] at h
    exact talks_gating hpoint h
  | readingTopics c attempt reply => exact talks_readingTopics hpoint
  | auditing c attempt reply topics => exact talks_auditing hpoint
  | posting c attempt reply audit => exact talks_posting hpoint
  | dispatching c attempt reply audit rest =>
    rw [hpoint] at h
    exact talks_dispatching hpoint h
  | drafting c attempt =>
    rw [hpoint] at h
    exact talks_drafting hpoint h
  | settling reply audit rest =>
    rw [hpoint] at h
    exact talks_settling hpoint h
  | closing next =>
    rw [hpoint] at h
    exact talks_closing hpoint h
  | _ => exact absurd (hpoint ▸ trivial) h

/-- **The law, exactly**: a run that a newer trigger aborts stays silent if and only if it is at a
point at which it notices the abort in time. -/
theorem silent_iff_abortChecked (deps : HandlerDeps) (s : HandlerRun) :
    StaysSilent deps s.abort ↔ AbortChecked deps s.point := by
  constructor
  · intro hsilent
    by_contra h
    have htalks : Talks deps s.abort := talks_of_not_abortChecked h
    exact htalks.not_staysSilent hsilent
  · exact staysSilent_of_abortChecked

end Runs

/-! ### A run that is not silent -/

/-- A conversation with a question. -/
def askedConversation : ConversationDetail where
  endUserId := some "eu_1"
  messages := [{ id := "msg_1", authorType := .endUser, body := "hello?" }]

/-- A run whose reply is being audited. -/
def auditedRun : HandlerRun where
  mode := .reply
  point := .auditing { detail := askedConversation, mode := .reply, delivery := .send } 0
    { body := "sure thing", finishReason := "stop", toolCalls := [] } []

theorem auditedRun_reachable : (handlerRuns {}).Reachable (· = { mode := .reply }) auditedRun := by
  have hrun : (handlerRuns {}).run { mode := .reply } [.answer .done,
      .answer (.conversation askedConversation), .answer (.claim true), .answer .done,
      .answer .done, .answer (.response "sure thing" "stop" []), .answer (.topics [])] =
      some auditedRun := by rfl
  exact Machine.reachable_of_run rfl hrun

/-- **A superseded run marks spam**: it is aborted while its reply is audited, and the audit's
verdict is carried out all the same. -/
theorem superseded_run_marks_spam :
    ∃ s t, (handlerRuns {}).Reachable (· = { mode := .reply }) s ∧ s.aborted = false ∧
      (handlerRuns {}).Reachable (· = s.abort) t ∧
      s.changes = [] ∧ t.changes = [.changeStatus .spam none] := by
  have hrun : ∃ t, (handlerRuns {}).run auditedRun.abort
      [.answer (.audited none [.markSpam "junk"])] = some t ∧
      t.changes = [.changeStatus .spam none] := ⟨_, rfl, rfl⟩
  obtain ⟨t, ht, hchanges⟩ := hrun
  exact ⟨auditedRun, t, auditedRun_reachable, rfl, Machine.reachable_of_run rfl ht, rfl, hchanges⟩

end Munin
