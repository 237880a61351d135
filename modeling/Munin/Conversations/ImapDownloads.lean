import Mathlib.Algebra.GroupWithZero.Nat
import Munin.Foundations.HighWater

/-!
# Downloads from a mailbox

A poll lists what the mailbox has beyond the cursor, with the sizes that the server declares, plans
which messages to download, and asks for these. A message that is declared or turns out larger than
the limit is left aside; a download that is larger than it was declared to be fails as a whole.

* **`planImapDownloads`** — the plan; it ends with the limit of messages, or of bytes.
* **`plan_first`** — what is planned are the first messages beyond the cursor.
* **`fetchSince`** — the plan, and the download.
* **`fetch_first`** — a download that does not fail has what was planned, each message once.

Sources are given by their lengths. What the server answers is given; `Lists` and `Sends` say when
it answers from its mailbox.
-/

namespace Munin

open Foundations

/-- `IMAP_MAX_MESSAGE_BYTES`. -/
def imapMaxMessageBytes : ℕ := 40 * 1024 * 1024

/-- `IMAP_MAX_BATCH_BYTES`. -/
def imapMaxBatchBytes : ℕ := 64 * 1024 * 1024

structure ImapSizedUid where
  uid : ℕ
  size : Option ℕ
  deriving DecidableEq

structure ImapDownloadPlan where
  fetch : List ImapSizedUid := []
  oversized : List ImapSizedUid := []

/-- The options of `planImapDownloads`. -/
structure ImapPlanOptions where
  sinceUid : ℕ
  limit : ℕ
  maxMessageBytes : ℕ
  maxBatchBytes : ℕ

/-- What a message counts for: the limit, if its size is not known. -/
def ImapPlanOptions.bytes (opts : ImapPlanOptions) (candidate : ImapSizedUid) : ℕ :=
  candidate.size.getD opts.maxMessageBytes

/-- `.sort((a, b) => a.uid - b.uid)`. -/
def sortByUid {α : Type*} (uid : α → ℕ) (l : List α) : List α :=
  l.insertionSort fun a b => uid a ≤ uid b

/-- What is beyond the cursor, each uid once. -/
def unseenSince (sinceUid : ℕ) (seen : List ℕ) : List ImapSizedUid → List ImapSizedUid
  | [] => []
  | c :: rest =>
    if sinceUid < c.uid ∧ c.uid ∉ seen then c :: unseenSince sinceUid (c.uid :: seen) rest
    else unseenSince sinceUid seen rest

/-- The loop of `planImapDownloads`. -/
def planFrom (opts : ImapPlanOptions) :
    List ImapSizedUid → ImapDownloadPlan → ℕ → ℕ → ImapDownloadPlan
  | [], plan, _, _ => plan
  | candidate :: rest, plan, batchBytes, decided =>
    if opts.limit ≤ decided then plan
    else if opts.maxMessageBytes < opts.bytes candidate then
      planFrom opts rest { plan with oversized := plan.oversized ++ [candidate] } batchBytes
        (decided + 1)
    else if plan.fetch ≠ [] ∧ opts.maxBatchBytes < batchBytes + opts.bytes candidate then plan
    else planFrom opts rest { plan with fetch := plan.fetch ++ [candidate] }
      (batchBytes + opts.bytes candidate) (decided + 1)

def planImapDownloads (candidates : List ImapSizedUid) (opts : ImapPlanOptions) :
    ImapDownloadPlan :=
  let ordered := sortByUid (·.uid) (unseenSince opts.sinceUid [] candidates)
  planFrom opts ordered {} 0 0

/-- What is decided on, in the order of the uids. -/
def ImapDownloadPlan.batch (plan : ImapDownloadPlan) : List ℕ :=
  ((plan.fetch ++ plan.oversized).map (·.uid)).mergeSort (· ≤ ·)

/-- A plan is about the first messages beyond the cursor, about one at least if there is any, and
what it downloads is in order and within the limit, or a single message. -/
structure PlansFirst (candidates : List ImapSizedUid) (opts : ImapPlanOptions)
    (plan : ImapDownloadPlan) : Prop where
  first : FirstBeyond (candidates.map (·.uid)) opts.sinceUid plan.batch
  ascending : (plan.fetch.map (·.uid)).Pairwise (· < ·)
  nonempty : 0 < opts.limit → (∃ c ∈ candidates, opts.sinceUid < c.uid) → plan.batch ≠ []
  bytes : (plan.fetch.map opts.bytes).sum ≤ opts.maxBatchBytes ∨ plan.fetch.length = 1

/-! ### The plan -/

section SortByUid

variable {α : Type*} (uid : α → ℕ) (l : List α)

theorem sortByUid_perm : (sortByUid uid l).Perm l :=
  List.perm_insertionSort _ l

theorem sortByUid_pairwise : ((sortByUid uid l).map uid).Pairwise (· ≤ ·) := by
  have : Std.Total fun a b : α => uid a ≤ uid b := ⟨fun a b => le_total _ _⟩
  have : IsTrans α fun a b => uid a ≤ uid b := ⟨fun _ _ _ => le_trans⟩
  exact List.pairwise_map.2 (List.pairwise_insertionSort _ l)

end SortByUid

section Plan

variable {sinceUid : ℕ} {opts : ImapPlanOptions}

variable {cs : List ImapSizedUid} {c : ImapSizedUid}

theorem mem_unseenSince {seen : List ℕ}
    (h : c ∈ unseenSince sinceUid seen cs) : c ∈ cs ∧ sinceUid < c.uid ∧ c.uid ∉ seen := by
  induction cs generalizing seen with
  | nil => cases h
  | cons d cs ih =>
    rw [unseenSince] at h
    split at h
    · rename_i hd
      rcases List.mem_cons.1 h with rfl | h
      · exact ⟨List.mem_cons_self, hd⟩
      · obtain ⟨hmem, hbeyond, hseen⟩ := ih h
        exact ⟨List.mem_cons_of_mem _ hmem, hbeyond, fun hc => hseen (List.mem_cons_of_mem _ hc)⟩
    · obtain ⟨hmem, hrest⟩ := ih h
      exact ⟨List.mem_cons_of_mem _ hmem, hrest⟩

/-- Each uid beyond the cursor is there. -/
theorem mem_map_unseenSince {seen : List ℕ}
    (hc : c ∈ cs) (hbeyond : sinceUid < c.uid) (hseen : c.uid ∉ seen) :
    c.uid ∈ (unseenSince sinceUid seen cs).map (·.uid) := by
  induction cs generalizing seen with
  | nil => cases hc
  | cons d cs ih =>
    rw [unseenSince]
    split
    · rcases List.mem_cons.1 hc with rfl | hc
      · exact List.mem_cons_self
      · by_cases hd : c.uid = d.uid
        · rw [List.map_cons, ← hd]
          exact List.mem_cons_self
        · refine List.mem_cons_of_mem _ (ih hc fun h => ?_)
          rcases List.mem_cons.1 h with h | h
          · exact hd h
          · exact hseen h
    · rename_i hskip
      rcases List.mem_cons.1 hc with rfl | hc
      · exact absurd ⟨hbeyond, hseen⟩ hskip
      · exact ih hc hseen

theorem nodup_unseenSince (cs : List ImapSizedUid) (seen : List ℕ) :
    ((unseenSince sinceUid seen cs).map (·.uid)).Nodup := by
  induction cs generalizing seen with
  | nil => exact List.nodup_nil
  | cons d cs ih =>
    rw [unseenSince]
    split
    · refine List.nodup_cons.2 ⟨fun h => ?_, ih _⟩
      obtain ⟨c, hc, hsame⟩ := List.mem_map.1 h
      exact (mem_unseenSince hc).2.2 (hsame ▸ List.mem_cons_self)
    · exact ih seen

/-- The candidates in the order of the plan. -/
def orderedSince (sinceUid : ℕ) (cs : List ImapSizedUid) : List ImapSizedUid :=
  sortByUid (·.uid) (unseenSince sinceUid [] cs)

theorem mem_orderedSince (h : c ∈ orderedSince sinceUid cs) : c ∈ cs ∧ sinceUid < c.uid := by
  obtain ⟨hmem, hbeyond, -⟩ := mem_unseenSince ((sortByUid_perm _ _).mem_iff.1 h)
  exact ⟨hmem, hbeyond⟩

theorem orderedSince_ascending (cs : List ImapSizedUid) :
    ((orderedSince sinceUid cs).map (·.uid)).Pairwise (· < ·) := by
  have hnodup : ((orderedSince sinceUid cs).map (·.uid)).Nodup :=
    ((sortByUid_perm _ _).map _).nodup_iff.2 (nodup_unseenSince cs [])
  exact (sortByUid_pairwise _ _).imp₂ (fun _ _ hle hne => lt_of_le_of_ne hle hne) hnodup

/-- In their order, the uids are those beyond the cursor. -/
theorem map_orderedSince (cs : List ImapSizedUid) : (orderedSince sinceUid cs).map (·.uid) =
    candidates (cs.map (·.uid)) (some sinceUid) fun _ => false := by
  refine (orderedSince_ascending cs).eq_of_mem_iff candidates_ascending fun i => ?_
  rw [mem_beyond]
  constructor
  · intro hi
    obtain ⟨c, hc, rfl⟩ := List.mem_map.1 hi
    obtain ⟨hmem, hbeyond⟩ := mem_orderedSince hc
    exact ⟨List.mem_map_of_mem hmem, hbeyond⟩
  · rintro ⟨hi, hbeyond⟩
    obtain ⟨c, hc, rfl⟩ := List.mem_map.1 hi
    exact ((sortByUid_perm _ _).map _).mem_iff.2
      (mem_map_unseenSince hc hbeyond List.not_mem_nil)

/-- The loop decides on a first part of the candidates, message by message. -/
theorem exists_take_planFrom (opts : ImapPlanOptions) (cs : List ImapSizedUid)
    (plan : ImapDownloadPlan) (batchBytes decided : ℕ) :
    ∃ n, (cs ≠ [] → plan.fetch = [] → decided < opts.limit → n ≠ 0) ∧
      (planFrom opts cs plan batchBytes decided).fetch =
        plan.fetch ++ (cs.take n).filter (opts.bytes · ≤ opts.maxMessageBytes) ∧
      (planFrom opts cs plan batchBytes decided).oversized =
        plan.oversized ++ (cs.take n).filter (opts.maxMessageBytes < opts.bytes ·) := by
  induction cs generalizing plan batchBytes decided with
  | nil => exact ⟨0, fun h => absurd rfl h, by simp [planFrom], by simp [planFrom]⟩
  | cons c cs ih =>
    rw [planFrom]
    split
    · exact ⟨0, fun _ _ _ => by omega, by simp, by simp⟩
    · split
      · rename_i hlarge
        obtain ⟨n, -, hfetch, hoversized⟩ := ih
          { plan with oversized := plan.oversized ++ [c] } batchBytes (decided + 1)
        refine ⟨n + 1, fun _ _ _ => n.succ_ne_zero, ?_, ?_⟩
        · rw [hfetch, List.take_succ_cons, List.filter_cons_of_neg (by simpa using hlarge)]
        · rw [hoversized, List.take_succ_cons, List.filter_cons_of_pos (by simpa using hlarge),
            List.append_assoc, List.singleton_append]
      · split
        · rename_i hfull
          exact ⟨0, fun _ hnone => absurd hnone hfull.1, by simp, by simp⟩
        · rename_i hsmall _
          obtain ⟨n, -, hfetch, hoversized⟩ := ih { plan with fetch := plan.fetch ++ [c] }
            (batchBytes + opts.bytes c) (decided + 1)
          refine ⟨n + 1, fun _ _ _ => n.succ_ne_zero, ?_, ?_⟩
          · rw [hfetch, List.take_succ_cons, List.filter_cons_of_pos (by simpa using hsmall),
              List.append_assoc, List.singleton_append]
          · rw [hoversized, List.take_succ_cons, List.filter_cons_of_neg (by simpa using hsmall)]

/-- The loop counts what it downloads, and keeps to the limit from the second message on. -/
theorem bytes_planFrom (cs : List ImapSizedUid) (plan : ImapDownloadPlan) (batchBytes decided : ℕ)
    (hcount : batchBytes = (plan.fetch.map opts.bytes).sum)
    (hplan : batchBytes ≤ opts.maxBatchBytes ∨ plan.fetch.length = 1) :
    (((planFrom opts cs plan batchBytes decided).fetch.map opts.bytes).sum ≤ opts.maxBatchBytes ∨
      (planFrom opts cs plan batchBytes decided).fetch.length = 1) := by
  induction cs generalizing plan batchBytes decided with
  | nil => exact hcount ▸ hplan
  | cons c cs ih =>
    rw [planFrom]
    split
    · exact hcount ▸ hplan
    · split
      · exact ih _ _ _ hcount hplan
      · split
        · exact hcount ▸ hplan
        · rename_i hnext
          refine ih _ _ _ ?_ ?_
          · rw [hcount, List.map_append, List.sum_append, List.map_singleton, List.sum_singleton]
          · by_cases hnone : plan.fetch = []
            · exact .inr (by simp [hnone])
            · have hwithin := not_and.1 hnext hnone
              exact .inl (by omega)

/-- What is planned, as a first part of the candidates. -/
theorem exists_take_plan (cs : List ImapSizedUid) (opts : ImapPlanOptions) :
    ∃ n, (orderedSince opts.sinceUid cs ≠ [] → 0 < opts.limit → n ≠ 0) ∧
      (planImapDownloads cs opts).fetch = ((orderedSince opts.sinceUid cs).take n).filter
        (opts.bytes · ≤ opts.maxMessageBytes) ∧
      (planImapDownloads cs opts).oversized = ((orderedSince opts.sinceUid cs).take n).filter
        (opts.maxMessageBytes < opts.bytes ·) := by
  obtain ⟨n, hn, hfetch, hoversized⟩ :=
    exists_take_planFrom opts (orderedSince opts.sinceUid cs) {} 0 0
  exact ⟨n, fun hne hlimit => hn hne rfl hlimit, hfetch, hoversized⟩

/-- What is planned, in order, is the first part of what is beyond the cursor. -/
theorem batch_eq_take {n : ℕ}
    (hfetch : (planImapDownloads cs opts).fetch = ((orderedSince opts.sinceUid cs).take n).filter
      (opts.bytes · ≤ opts.maxMessageBytes))
    (hoversized : (planImapDownloads cs opts).oversized =
      ((orderedSince opts.sinceUid cs).take n).filter (opts.maxMessageBytes < opts.bytes ·)) :
    (planImapDownloads cs opts).batch = ((orderedSince opts.sinceUid cs).take n).map (·.uid) := by
  have hpred : (fun c => decide (opts.maxMessageBytes < opts.bytes c)) =
      fun c => !decide (opts.bytes c ≤ opts.maxMessageBytes) := by
    funext c
    rw [Bool.eq_iff_iff, decide_eq_true_eq, Bool.not_eq_true', decide_eq_false_iff_not, not_le]
  have hperm : ((planImapDownloads cs opts).fetch ++ (planImapDownloads cs opts).oversized).Perm
      ((orderedSince opts.sinceUid cs).take n) := by
    rw [hfetch, hoversized, hpred]
    exact List.filter_append_perm _ _
  have hasc : (((orderedSince opts.sinceUid cs).take n).map (·.uid)).Pairwise (· ≤ ·) := by
    rw [List.map_take]
    exact ((orderedSince_ascending cs).sublist (List.take_sublist _ _)).imp le_of_lt
  have hsorted : (planImapDownloads cs opts).batch.Pairwise (· ≤ ·) := List.pairwise_mergeSort' _ _
  exact ((List.mergeSort_perm _ _).trans (hperm.map _)).eq_of_pairwise' hsorted hasc

/-- **What is planned comes first.** -/
theorem plan_first (cs : List ImapSizedUid) (opts : ImapPlanOptions) :
    PlansFirst cs opts (planImapDownloads cs opts) := by
  obtain ⟨n, hn, hfetch, hoversized⟩ := exists_take_plan cs opts
  have hbatch := batch_eq_take hfetch hoversized
  refine ⟨?_, ?_, fun hlimit ⟨c, hc, hbeyond⟩ => ?_, ?_⟩
  · rw [FirstBeyond, hbatch, ← map_orderedSince, List.map_take]
    exact List.take_prefix _ _
  · have hall : ((orderedSince opts.sinceUid cs).map (·.uid)).Pairwise (· < ·) :=
      orderedSince_ascending cs
    have htake := hall.sublist ((List.take_sublist n _).map _)
    rw [hfetch]
    exact htake.sublist (List.filter_sublist.map _)
  · have hmem : c.uid ∈ (orderedSince opts.sinceUid cs).map (·.uid) := by
      rw [map_orderedSince, mem_beyond]
      exact ⟨List.mem_map_of_mem hc, hbeyond⟩
    have hne : orderedSince opts.sinceUid cs ≠ [] := by
      intro hnil
      rw [hnil] at hmem
      cases hmem
    rw [hbatch, ne_eq, List.map_eq_nil_iff, List.take_eq_nil_iff, not_or]
    exact ⟨hn hne hlimit, hne⟩
  · exact bytes_planFrom _ _ _ _ rfl (.inl (Nat.zero_le _))

end Plan

/-! ### The download -/

/-- The source of a message. -/
structure ImapSource where
  length : ℕ
  deriving DecidableEq

/-- A message in the mailbox, with the size that the server declares. -/
structure ImapMessage where
  uid : ℕ
  size : Option ℕ
  source : ImapSource
  internalDate : Option ℕ := none

/-- Over the size limit, as declared or in fact. -/
def ImapMessage.Oversized (m : ImapMessage) : Prop :=
  imapMaxMessageBytes < m.size.getD imapMaxMessageBytes ∨ imapMaxMessageBytes < m.source.length

/-- What the server sends for a message. -/
structure ImapSent where
  uid : ℕ
  source : Option ImapSource

structure ImapMessageMin where
  uid : ℕ
  source : ImapSource

/-- A download, so far. -/
structure ImapDownload where
  wanted : List ℕ
  received : ℕ := 0
  messages : List ImapMessageMin := []
  oversized : List ImapSizedUid

/-- The loop over what the server sends. -/
def receive : List ImapSent → ImapDownload → Except String ImapDownload
  | [], d => .ok d
  | msg :: rest, d =>
    match msg.source with
    | none => receive rest d
    | some source =>
      if msg.uid ∈ d.wanted then
        let received := d.received + source.length
        if imapMaxBatchBytes + imapMaxMessageBytes < received then
          .error ("imap_batch_too_large: the server sent more than " ++
            toString (imapMaxBatchBytes + imapMaxMessageBytes) ++
            " bytes for messages it declared smaller")
        else if imapMaxMessageBytes < source.length then
          receive rest { d with
            wanted := d.wanted.erase msg.uid
            received := received
            oversized := d.oversized ++ [⟨msg.uid, some source.length⟩] }
        else
          receive rest { d with
            wanted := d.wanted.erase msg.uid
            received := received
            messages := d.messages ++ [⟨msg.uid, source⟩] }
      else receive rest d

structure ImapFetchResult where
  uidValidity : String
  messages : List ImapMessageMin
  oversized : List ImapSizedUid := []

/-- The options of the plan that `fetchSince` makes. -/
def fetchOptions (sinceUid limit : ℕ) : ImapPlanOptions :=
  ⟨sinceUid, limit, imapMaxMessageBytes, imapMaxBatchBytes⟩

/-- `fetchSince`, with the validity of the mailbox, and what the server lists and sends. -/
def fetchSince (sinceUid : ℕ) (uidValidity : Option String) (limit : ℕ) (mailboxValidity : String)
    (sized : List ImapSizedUid) (sent : List ImapSent) : Except String ImapFetchResult :=
  if uidValidity.any (· ≠ mailboxValidity) then .ok ⟨mailboxValidity, [], []⟩
  else
    let plan := planImapDownloads sized (fetchOptions sinceUid limit)
    if plan.fetch = [] then .ok ⟨mailboxValidity, [], plan.oversized⟩
    else
      (receive sent { wanted := plan.fetch.map (·.uid), oversized := plan.oversized }).map fun d =>
        ⟨mailboxValidity, sortByUid (·.uid) d.messages, d.oversized⟩

/-- The server lists what the mailbox has beyond the cursor. -/
def Lists (mailbox : List ImapMessage) (sinceUid : ℕ) (sized : List ImapSizedUid) : Prop :=
  (∀ m ∈ mailbox, sinceUid < m.uid → ⟨m.uid, m.size⟩ ∈ sized) ∧
    ∀ c ∈ sized, ∃ m ∈ mailbox, c = ⟨m.uid, m.size⟩

/-- The server sends the source of each message that it is asked for. -/
def Sends (mailbox : List ImapMessage) (uids : List ℕ) (sent : List ImapSent) : Prop :=
  (∀ uid ∈ uids, ∃ x ∈ sent, x.uid = uid ∧ x.source.isSome = true) ∧
    ∀ x ∈ sent, ∀ source ∈ x.source, ∃ m ∈ mailbox, m.uid = x.uid ∧ m.source = source

/-- The uids of a result, in order. -/
def ImapFetchResult.uids (result : ImapFetchResult) : List ℕ :=
  (result.messages.map (·.uid) ++ result.oversized.map (·.uid)).mergeSort (· ≤ ·)

/-- A download has the first messages of the mailbox beyond the cursor, one at least if there is
any; those that it leaves aside are over the limit, and no others. -/
structure FetchesFirst (mailbox : List ImapMessage) (sinceUid : ℕ) (result : ImapFetchResult) :
    Prop where
  first : FirstBeyond (mailbox.map (·.uid)) sinceUid result.uids
  nonempty : (∃ m ∈ mailbox, sinceUid < m.uid) → result.uids ≠ []
  messages : ∀ x ∈ result.messages, ∃ m ∈ mailbox, m.uid = x.uid ∧ ¬ m.Oversized
  oversized : ∀ c ∈ result.oversized, ∃ m ∈ mailbox, m.uid = c.uid ∧ m.Oversized

section Fetch

variable {mailbox : List ImapMessage}

/-- The invariant of the download: what is still wanted and what has arrived is what was planned;
and each message is where it belongs. -/
structure DownloadOk (mailbox : List ImapMessage) (planned : List ℕ) (d : ImapDownload) : Prop where
  perm : (d.wanted ++ (d.messages.map (·.uid) ++ d.oversized.map (·.uid))).Perm planned
  wanted : ∀ uid ∈ d.wanted, ∃ m ∈ mailbox, m.uid = uid ∧
    m.size.getD imapMaxMessageBytes ≤ imapMaxMessageBytes
  messages : ∀ x ∈ d.messages, ∃ m ∈ mailbox, m.uid = x.uid ∧ ¬ m.Oversized
  oversized : ∀ c ∈ d.oversized, ∃ m ∈ mailbox, m.uid = c.uid ∧ m.Oversized

variable {d d' : ImapDownload} {sent : List ImapSent} {sized : List ImapSizedUid}

/-- A message arrives that was wanted, and is put where it belongs. -/
theorem DownloadOk.arrive {planned : List ℕ} (hd : DownloadOk mailbox planned d)
    (hinj : ∀ m ∈ mailbox, ∀ m' ∈ mailbox, m.uid = m'.uid → m = m') {m : ImapMessage}
    (hm : m ∈ mailbox) (hwanted : m.uid ∈ d.wanted) (herase : d'.wanted = d.wanted.erase m.uid)
    (hput : (m.source.length ≤ imapMaxMessageBytes ∧ d'.oversized = d.oversized ∧
        d'.messages = d.messages ++ [⟨m.uid, m.source⟩]) ∨
      (imapMaxMessageBytes < m.source.length ∧ d'.messages = d.messages ∧
        d'.oversized = d.oversized ++ [⟨m.uid, some m.source.length⟩])) :
    DownloadOk mailbox planned d' := by
  have hstill : ∀ uid ∈ d'.wanted, ∃ m ∈ mailbox, m.uid = uid ∧
      m.size.getD imapMaxMessageBytes ≤ imapMaxMessageBytes := by
    intro uid huid
    rw [herase] at huid
    exact hd.wanted uid (List.mem_of_mem_erase huid)
  have hmoved : (m.uid :: (d.wanted.erase m.uid ++
      (d.messages.map (·.uid) ++ d.oversized.map (·.uid)))).Perm planned :=
    ((List.perm_cons_erase hwanted).symm.append_right _).trans hd.perm
  rcases hput with ⟨hsmall, hoversized, hmessages⟩ | ⟨hlarge, hmessages, hoversized⟩
  · refine ⟨?_, hstill, ?_, hoversized ▸ hd.oversized⟩
    · refine List.Perm.trans ?_ hmoved
      rw [herase, hmessages, hoversized, List.map_append, List.append_assoc, ← List.append_assoc]
      exact List.perm_middle.trans (.of_eq (by simp))
    · intro x hx
      rw [hmessages] at hx
      rcases List.mem_append.1 hx with hx | hx
      · exact hd.messages x hx
      · obtain rfl := List.mem_singleton.1 hx
        obtain ⟨m', hm', hsame, hsize⟩ := hd.wanted m.uid hwanted
        obtain rfl := hinj m' hm' m hm hsame
        refine ⟨m', hm', rfl, ?_⟩
        rintro (hdeclared | hlength)
        · exact absurd hdeclared (not_lt.2 hsize)
        · exact absurd hlength (not_lt.2 hsmall)
  · refine ⟨?_, hstill, hmessages ▸ hd.messages, ?_⟩
    · refine List.Perm.trans ?_ hmoved
      rw [herase, hmessages, hoversized, List.map_append, ← List.append_assoc, ← List.append_assoc]
      refine (List.perm_append_singleton _ _).trans ?_
      rw [List.append_assoc]
    · intro c hc
      rw [hoversized] at hc
      rcases List.mem_append.1 hc with hc | hc
      · exact hd.oversized c hc
      · obtain rfl := List.mem_singleton.1 hc
        exact ⟨m, hm, rfl, .inr hlarge⟩

/-- The loop keeps the invariant, and what is wanted at its end was not sent. -/
theorem DownloadOk.receive {planned : List ℕ} (hplanned : planned.Nodup)
    (hinj : ∀ m ∈ mailbox, ∀ m' ∈ mailbox, m.uid = m'.uid → m = m')
    (hsent : ∀ x ∈ sent, ∀ source ∈ x.source, ∃ m ∈ mailbox, m.uid = x.uid ∧ m.source = source)
    (hd : DownloadOk mailbox planned d) (h : receive sent d = .ok d') :
    DownloadOk mailbox planned d' ∧ ∀ uid ∈ d'.wanted, uid ∈ d.wanted ∧
      ∀ x ∈ sent, x.source.isSome = true → x.uid ≠ uid := by
  induction sent generalizing d with
  | nil =>
    obtain rfl := Except.ok.inj h
    exact ⟨hd, fun uid huid => ⟨huid, nofun⟩⟩
  | cons x sent ih =>
    have hrest := fun y hy => hsent y (List.mem_cons_of_mem _ hy)
    -- the message was not wanted any more, or had no source
    have hskip : Munin.receive sent d = .ok d' → (x.source.isSome = true → x.uid ∉ d.wanted) →
        DownloadOk mailbox planned d' ∧ ∀ uid ∈ d'.wanted, uid ∈ d.wanted ∧
          ∀ y ∈ x :: sent, y.source.isSome = true → y.uid ≠ uid := by
      intro h hnot
      obtain ⟨hok, hleft⟩ := ih hrest hd h
      refine ⟨hok, fun uid huid => ?_⟩
      obtain ⟨hwanted, hothers⟩ := hleft uid huid
      refine ⟨hwanted, fun y hy hsome => ?_⟩
      rcases List.mem_cons.1 hy with rfl | hy
      · rintro rfl
        exact hnot hsome hwanted
      · exact hothers y hy hsome
    rw [Munin.receive] at h
    split at h
    · rename_i hnone
      exact hskip h fun hsome => by simp [hnone] at hsome
    · rename_i source hsource
      obtain ⟨m, hm, huid, rfl⟩ := hsent x List.mem_cons_self source hsource
      split at h
      · rename_i hwanted
        have hnodup : d.wanted.Nodup := (hd.perm.nodup_iff.2 hplanned).of_append_left
        rw [← huid] at hwanted h
        -- the message is not wanted after it has arrived
        have hgoes : ∀ u : ImapDownload, u.wanted = d.wanted.erase m.uid →
            DownloadOk mailbox planned u → Munin.receive sent u = .ok d' →
              DownloadOk mailbox planned d' ∧ ∀ uid ∈ d'.wanted, uid ∈ d.wanted ∧
                ∀ y ∈ x :: sent, y.source.isSome = true → y.uid ≠ uid := by
          intro u hu huok h
          obtain ⟨hok, hleft⟩ := ih hrest huok h
          refine ⟨hok, fun uid hmem => ?_⟩
          obtain ⟨hstill, hothers⟩ := hleft uid hmem
          rw [hu, hnodup.mem_erase_iff] at hstill
          refine ⟨hstill.2, fun y hy hsome => ?_⟩
          rcases List.mem_cons.1 hy with rfl | hy
          · rw [← huid]
            exact hstill.1.symm
          · exact hothers y hy hsome
        dsimp only at h
        split at h
        · cases h
        · split at h
          · rename_i hlarge
            refine hgoes _ ?_ ?_ h
            · rfl
            · exact hd.arrive hinj hm hwanted rfl (.inr ⟨hlarge, rfl, rfl⟩)
          · rename_i hsmall
            refine hgoes _ ?_ ?_ h
            · rfl
            · exact hd.arrive hinj hm hwanted rfl (.inl ⟨not_lt.1 hsmall, rfl, rfl⟩)
      · rename_i hnot
        exact hskip h fun _ => hnot

/-- The items beyond a cursor are the same for lists that have the same ones there. -/
theorem firstBeyond_of_lists {sinceUid : ℕ} (h : Lists mailbox sinceUid sized) {batch : List ℕ}
    (hbatch : FirstBeyond (sized.map (·.uid)) sinceUid batch) :
    FirstBeyond (mailbox.map (·.uid)) sinceUid batch := by
  obtain ⟨hall, honly⟩ := h
  refine hbatch.of_mem_iff fun uid huid => ?_
  constructor
  · intro hmem
    obtain ⟨c, hc, rfl⟩ := List.mem_map.1 hmem
    obtain ⟨m, hm, rfl⟩ := honly c hc
    exact List.mem_map_of_mem hm
  · intro hmem
    obtain ⟨m, hm, rfl⟩ := List.mem_map.1 hmem
    exact List.mem_map_of_mem (f := fun c : ImapSizedUid => c.uid) (hall m hm huid)

/-- **A download that does not fail has what was planned.** -/
theorem fetch_first {sinceUid limit : ℕ} {uidValidity : Option String} {mailboxValidity : String}
    (hvalid : ∀ v ∈ uidValidity, v = mailboxValidity) (hlimit : 0 < limit)
    (hinj : ∀ m ∈ mailbox, ∀ m' ∈ mailbox, m.uid = m'.uid → m = m')
    (hlists : Lists mailbox sinceUid sized) (hsends : Sends mailbox
      ((planImapDownloads sized (fetchOptions sinceUid limit)).fetch.map (·.uid)) sent)
    {result : ImapFetchResult}
    (h : fetchSince sinceUid uidValidity limit mailboxValidity sized sent = .ok result) :
    result.uidValidity = mailboxValidity ∧ FetchesFirst mailbox sinceUid result := by
  obtain ⟨n, -, hfetch, hoversized⟩ :=
    exists_take_plan sized (fetchOptions sinceUid limit)
  obtain ⟨hfirst, -, hnonempty, -⟩ := plan_first sized (fetchOptions sinceUid limit)
  set plan := planImapDownloads sized (fetchOptions sinceUid limit) with hplan
  have hsize : ∀ c ∈ sized, ∃ m ∈ mailbox, m.uid = c.uid ∧ m.size = c.size := by
    intro c hc
    obtain ⟨m, hm, rfl⟩ := hlists.2 c hc
    exact ⟨m, hm, rfl, rfl⟩
  have htake : ∀ c ∈ (orderedSince sinceUid sized).take n, c ∈ sized := fun c hc =>
    (mem_orderedSince (List.mem_of_mem_take hc)).1
  have hwanted : ∀ uid ∈ plan.fetch.map (·.uid), ∃ m ∈ mailbox, m.uid = uid ∧
      m.size.getD imapMaxMessageBytes ≤ imapMaxMessageBytes := by
    intro uid huid
    obtain ⟨c, hc, rfl⟩ := List.mem_map.1 huid
    rw [hfetch, List.mem_filter, decide_eq_true_eq] at hc
    obtain ⟨m, hm, huid, hsame⟩ := hsize c (htake c hc.1)
    exact ⟨m, hm, huid, hsame ▸ hc.2⟩
  have hlarge : ∀ c ∈ plan.oversized, ∃ m ∈ mailbox, m.uid = c.uid ∧ m.Oversized := by
    intro c hc
    rw [hoversized, List.mem_filter, decide_eq_true_eq] at hc
    obtain ⟨m, hm, huid, hsame⟩ := hsize c (htake c hc.1)
    exact ⟨m, hm, huid, .inl (hsame ▸ hc.2)⟩
  have hbeyond : FirstBeyond (mailbox.map (·.uid)) sinceUid plan.batch :=
    firstBeyond_of_lists hlists hfirst
  have hsome : (∃ m ∈ mailbox, sinceUid < m.uid) → plan.batch ≠ [] := fun ⟨m, hm, hlt⟩ =>
    hnonempty hlimit ⟨_, hlists.1 m hm hlt, hlt⟩
  have hnodup : (plan.fetch.map (·.uid) ++ plan.oversized.map (·.uid)).Nodup := by
    rw [← List.map_append]
    exact (List.mergeSort_perm _ _).nodup_iff.1 (hbeyond.ascending.imp fun h => ne_of_lt h)
  have hany : uidValidity.any (· ≠ mailboxValidity) = false := by
    rw [← Bool.not_eq_true, Option.any_eq_true]
    rintro ⟨v, hv, hne⟩
    exact of_decide_eq_true hne (hvalid v hv)
  rw [fetchSince, hany] at h
  simp only [Bool.false_eq_true, if_false, ← hplan] at h
  split at h
  · rename_i hnone
    obtain rfl := Except.ok.inj h
    have huids : ImapFetchResult.uids ⟨mailboxValidity, [], plan.oversized⟩ = plan.batch := by
      rw [ImapFetchResult.uids, ImapDownloadPlan.batch, hnone]
      rfl
    exact ⟨rfl, huids ▸ hbeyond, huids ▸ hsome, nofun, hlarge⟩
  · cases hreceive : receive sent ⟨plan.fetch.map (·.uid), 0, [], plan.oversized⟩ with
    | error e =>
      rw [hreceive] at h
      cases h
    | ok d =>
      rw [hreceive] at h
      obtain rfl := Except.ok.inj h
      have hstart : DownloadOk mailbox (plan.fetch.map (·.uid) ++ plan.oversized.map (·.uid))
          ⟨plan.fetch.map (·.uid), 0, [], plan.oversized⟩ :=
        ⟨.refl _, hwanted, nofun, hlarge⟩
      obtain ⟨hok, hleft⟩ := hstart.receive hnodup hinj hsends.2 hreceive
      -- The server sends what was asked for, so nothing stays wanted.
      have hdone : d.wanted = [] := by
        rw [List.eq_nil_iff_forall_not_mem]
        intro uid huid
        obtain ⟨hplanned, hnot⟩ := hleft uid huid
        obtain ⟨x, hx, hsame, hsource⟩ := hsends.1 uid hplanned
        exact hnot x hx hsource hsame
      have hperm := hok.perm
      rw [hdone, List.nil_append] at hperm
      have huids : ImapFetchResult.uids ⟨mailboxValidity, sortByUid (·.uid) d.messages,
          d.oversized⟩ = plan.batch := by
        have hsame : ((sortByUid (·.uid) d.messages).map (·.uid) ++
            d.oversized.map (·.uid)).Perm ((plan.fetch ++ plan.oversized).map (·.uid)) := by
          rw [List.map_append]
          exact (((sortByUid_perm _ _).map _).append_right _).trans hperm
        exact (((List.mergeSort_perm _ _).trans hsame).trans
          (List.mergeSort_perm _ _).symm).eq_of_pairwise' (List.pairwise_mergeSort' (· ≤ ·) _)
            (List.pairwise_mergeSort' (· ≤ ·) _)
      refine ⟨rfl, huids ▸ hbeyond, huids ▸ hsome, fun x hx => ?_, hok.oversized⟩
      exact hok.messages x ((sortByUid_perm _ _).mem_iff.1 hx)

end Fetch

end Munin
