import Munin.Outreach.SendPolicy

/-!
# Deferrals

The send policy puts a message off to a moment, and the message is checked again then. Nothing
guarantees that it passes; but it should not be put off for the same reason.

* **`Progresses`** — the law: a message is put off to a later moment, and not again for the same
  reason, if nothing has happened meanwhile.
* **`capDefer_again`, `latestInbound_again`** — the queries include the moment that a week, or a
  cooldown, ago lies on their edge: what put the message off is found again.
* **`progresses_iff`** — the law holds exactly if neither the cap nor a conversation put it off.
-/

namespace Munin

open Foundations

section

variable (facts : PolicyFacts) (policy : SendPolicy) (now : Instant) (id : String)

/-- **The law** of a deferral. -/
def Progresses : Prop :=
  ∀ until' reason, checkSendPolicy facts policy now id = .defer until' reason →
    now < until' ∧ (reason ≠ "conversation_assigned" →
      ∀ later, checkSendPolicy facts policy until' id ≠ .defer later reason)

/-- The contact has fewer marketing messages in the week than the cap allows, if there is one. -/
def BelowCap : Prop :=
  ∀ cap, weeklyCapOf facts policy = some cap → cap ≠ 0 →
    countSince (facts.sendTimes id) (now - WEEK_MS) < cap

/-- The contact has not written within the cooldown. -/
def CooledDown : Prop :=
  policy.marketing = true → 0 < cooldownHours facts policy →
    ∀ t ∈ facts.inboundTimes id, t < now - cooldownHours facts policy * 3600000

/-- **The condition**: a contact that may be written to at all is below the cap, and has an assigned
conversation or has not written within the cooldown. -/
def DefersOnward : Prop :=
  ∀ contact, facts.contact id = some contact → floorBlock facts policy contact = none →
    BelowCap facts policy now id ∧
      (policy.marketing = true ∧ facts.assigned id = true ∨ CooledDown facts policy now id)

variable {facts policy now id}

/-! ### The cap -/

theorem capDefer_eq_none_iff :
    capDefer facts policy now id = none ↔ BelowCap facts policy now id := by
  constructor
  · intro h cap hcap hne
    exact cap_of_capDefer h hcap hne
  · intro h
    unfold capDefer
    split
    · rfl
    · rfl
    · rename_i cap hcap
      have hlt := h (cap + 1) hcap (Nat.succ_ne_zero cap)
      rw [← length_weekTimes] at hlt
      exact if_neg (Nat.not_le.2 hlt)

/-- The times of a later week, in their order. -/
theorem weekTimes_of_le {later : Instant} (h : now ≤ later) :
    weekTimes facts later id =
      (weekTimes facts now id).filter fun t => decide (later - WEEK_MS ≤ t) := by
  have hsorted := List.pairwise_insertionSort (fun a b : Instant => a ≤ b)
  refine List.Perm.eq_of_pairwise' (hsorted _) ((hsorted _).filter _) ?_
  refine (List.perm_insertionSort _ _).trans (.trans ?_
    ((List.perm_insertionSort _ _).symm.filter _))
  rw [List.filter_filter]
  refine .of_eq (List.filter_congr fun t _ => ?_)
  have himp : later - WEEK_MS ≤ t → now - WEEK_MS ≤ t := fun ht => by linarith
  by_cases ht : later - WEEK_MS ≤ t
  · rw [decide_eq_true ht, decide_eq_true (himp ht)]
    rfl
  · rw [decide_eq_false ht]
    rfl

theorem capDefer_of_le {later : Instant} (h : now ≤ later)
    (hnone : capDefer facts policy now id = none) : capDefer facts policy later id = none := by
  rw [capDefer_eq_none_iff] at hnone ⊢
  intro cap hcap hne
  have hlt := hnone cap hcap hne
  rw [← length_weekTimes] at hlt ⊢
  rw [weekTimes_of_le h]
  exact (List.length_filter_le _ _).trans_lt hlt

/-- What is not below one of the values of a sorted list ends with the values from there on. -/
theorem exists_filter_eq_append {l : List Instant} (hsorted : l.Pairwise (· ≤ ·)) {k : ℕ}
    {t : Instant} (ht : l[k]? = some t) :
    ∃ before, l.filter (fun s => decide (t ≤ s)) = before ++ l.drop k := by
  refine ⟨(l.take k).filter fun s => decide (t ≤ s), ?_⟩
  have hlater : (l.drop k).filter (fun s => decide (t ≤ s)) = l.drop k := by
    refine List.filter_eq_self.2 fun s hs => decide_eq_true ?_
    obtain ⟨hk, rfl⟩ := List.getElem?_eq_some_iff.1 ht
    have hdrop := hsorted.drop (i := k)
    rw [List.drop_eq_getElem_cons hk] at hs hdrop
    rcases List.mem_cons.1 hs with rfl | hs
    · exact le_refl _
    · exact (List.pairwise_cons.1 hdrop).1 s hs
  conv_lhs => rw [← List.take_append_drop k l, List.filter_append, hlater]

/-- **What the cap put off is put off again**, to the same moment. -/
theorem capDefer_again {until' : Instant} (h : capDefer facts policy now id = some until') :
    capDefer facts policy until' id = some until' := by
  have hle := le_of_capDefer h
  unfold capDefer at h ⊢
  split at h
  · cases h
  · cases h
  · rename_i cap hcap
    dsimp only at h ⊢
    split at h
    · rename_i hlen
      obtain ⟨t, ht, rfl⟩ := Option.map_eq_some_iff.1 h
      obtain ⟨before, hbefore⟩ :=
        exists_filter_eq_append (List.pairwise_insertionSort (· ≤ ·) _) ht
      have hweek : weekTimes facts (t + WEEK_MS) id = before ++
          (weekTimes facts now id).drop ((weekTimes facts now id).length - (cap + 1)) := by
        rw [weekTimes_of_le hle, Int.add_sub_cancel]
        exact hbefore
      have hlength : (weekTimes facts (t + WEEK_MS) id).length = before.length + (cap + 1) := by
        rw [hweek, List.length_append, List.length_drop]
        omega
      rw [if_pos (by omega), hlength, Nat.add_sub_cancel, hweek,
        List.getElem?_append_right le_rfl, Nat.sub_self, List.getElem?_drop, Nat.add_zero, ht]
      rfl
    · cases h


/-! ### Conversations -/

theorem latestInbound_eq_none_iff :
    latestInbound facts policy now id = none ↔ CooledDown facts policy now id := by
  unfold latestInbound CooledDown
  dsimp only
  constructor
  · intro h hmarketing hhours t ht
    rw [if_pos (Bool.and_eq_true_iff.2 ⟨hmarketing, decide_eq_true hhours⟩),
      List.max?_eq_none_iff, List.filter_eq_nil_iff] at h
    exact not_le.1 fun hle => h t ht (decide_eq_true hle)
  · intro h
    split
    · rename_i hcond
      obtain ⟨hmarketing, hhours⟩ := Bool.and_eq_true_iff.1 hcond
      rw [List.max?_eq_none_iff, List.filter_eq_nil_iff]
      intro t ht hle
      exact absurd (of_decide_eq_true hle)
        (not_le.2 (h hmarketing (of_decide_eq_true hhours) t ht))
    · rfl

/-- **What a conversation put off is put off again**, to the same moment. -/
theorem latestInbound_again {inbound : Instant}
    (h : latestInbound facts policy now id = some inbound) :
    latestInbound facts policy (inbound + cooldownHours facts policy * 3600000) id =
      some inbound := by
  have hle := le_of_latestInbound h
  unfold latestInbound at h ⊢
  dsimp only at h ⊢
  split at h
  · rename_i hcond
    rw [if_pos hcond]
    obtain ⟨hmem, hmax⟩ := List.max?_eq_some_iff.1 h
    refine List.max?_eq_some_iff.2 ⟨List.mem_filter.2 ⟨(List.mem_filter.1 hmem).1, ?_⟩, ?_⟩
    · exact decide_eq_true (le_of_eq (Int.add_sub_cancel _ _))
    · intro t ht
      obtain ⟨ht, hedge⟩ := List.mem_filter.1 ht
      have hedge := of_decide_eq_true hedge
      exact hmax t (List.mem_filter.2 ⟨ht, decide_eq_true (by linarith)⟩)
  · cases h


/-! ### Windows -/

variable {contact : PolicyContact}

/-- The moment that a window was found for is in it. -/
theorem sendWindow_again {window : Instant}
    (h : sendWindow facts policy now contact = some window) :
    sendWindow facts policy window contact = some window := by
  unfold sendWindow nextSendableTime at h ⊢
  dsimp only at h ⊢
  refine if_pos ?_
  split at h
  · obtain rfl := Option.some.inj h
    assumption
  · exact List.find?_some h

/-- A message whose window is open is not put off for its windows. -/
theorem timing_of_open (h : sendWindow facts policy now contact = some now) (later : Instant) :
    timing facts policy now contact ≠ .defer later "quiet_hours" := by
  intro hdefer
  unfold timing at hdefer
  split at hdefer
  · exact absurd (SendDecision.defer.inj hdefer).2 (by decide)
  · split at hdefer
    · exact absurd (SendDecision.defer.inj hdefer).2 (by decide)
    · split at hdefer
      · exact absurd (SendDecision.defer.inj hdefer).2 (by decide)
      · split at hdefer
        · cases hdefer
        · rw [h] at hdefer
          dsimp only at hdefer
          rw [if_neg (lt_irrefl now)] at hdefer
          cases hdefer

/-! ### The law -/

theorem checkSendPolicy_eq (hcontact : facts.contact id = some contact)
    (hfloor : floorBlock facts policy contact = none) (t : Instant) :
    checkSendPolicy facts policy t id = timing facts policy t contact := by
  simp only [checkSendPolicy, hcontact, hfloor]

/-- What the cap puts off makes no progress. -/
theorem Progresses.belowCap (h : Progresses facts policy now id)
    (hcontact : facts.contact id = some contact) (hfloor : floorBlock facts policy contact = none) :
    BelowCap facts policy now id := by
  have hid := facts.contact_id id contact hcontact
  rw [← capDefer_eq_none_iff]
  refine Option.eq_none_iff_forall_ne_some.2 fun until' hdefer => ?_
  have hdecided : ∀ t, capDefer facts policy t id = some until' →
      checkSendPolicy facts policy t id = .defer until' "frequency_cap" := fun t ht => by
    rw [checkSendPolicy_eq hcontact hfloor, timing, hid, ht]
  exact (h until' _ (hdecided now hdefer)).2 (by decide) until'
    (hdecided until' (capDefer_again hdefer))

/-- What a conversation puts off makes no progress. -/
theorem Progresses.cooledDown (h : Progresses facts policy now id)
    (hcontact : facts.contact id = some contact) (hfloor : floorBlock facts policy contact = none)
    (hassigned : ¬ (policy.marketing = true ∧ facts.assigned id = true)) :
    CooledDown facts policy now id := by
  have hid := facts.contact_id id contact hcontact
  have hcap := capDefer_eq_none_iff.2 (h.belowCap hcontact hfloor)
  rw [← latestInbound_eq_none_iff]
  refine Option.eq_none_iff_forall_ne_some.2 fun inbound hinbound => ?_
  have hdecided : ∀ t, capDefer facts policy t id = none →
      latestInbound facts policy t id = some inbound →
      checkSendPolicy facts policy t id =
        .defer (inbound + cooldownHours facts policy * 3600000) "recent_conversation" := by
    intro t hcap hinbound
    rw [checkSendPolicy_eq hcontact hfloor, timing, hid, hcap, hinbound]
    exact if_neg fun hboth => hassigned (Bool.and_eq_true_iff.1 hboth)
  exact (h _ _ (hdecided now hcap hinbound)).2 (by decide) _
    (hdecided _ (capDefer_of_le (le_of_latestInbound hinbound) hcap)
      (latestInbound_again hinbound))

/-- **A deferral makes progress** if and only if neither the cap nor a conversation is what puts the
message off. -/
theorem progresses_iff : Progresses facts policy now id ↔ DefersOnward facts policy now id := by
  constructor
  · intro h contact hcontact hfloor
    refine ⟨h.belowCap hcontact hfloor, ?_⟩
    by_cases hassigned : policy.marketing = true ∧ facts.assigned id = true
    · exact .inl hassigned
    · exact .inr (h.cooledDown hcontact hfloor hassigned)
  · intro h until' reason hdefer
    cases hcontact : facts.contact id with
    | none =>
      rw [checkSendPolicy, hcontact] at hdefer
      cases hdefer
    | some contact =>
      cases hfloor : floorBlock facts policy contact with
      | some block =>
        simp only [checkSendPolicy, hcontact, hfloor] at hdefer
        cases hdefer
      | none =>
        obtain ⟨hcap, hcool⟩ := h contact hcontact hfloor
        have hid := facts.contact_id id contact hcontact
        rw [checkSendPolicy_eq hcontact hfloor] at hdefer ⊢
        rw [timing, hid, capDefer_eq_none_iff.2 hcap] at hdefer
        dsimp only at hdefer
        split at hdefer
        · cases hdefer
          exact ⟨Int.lt_add_of_pos_right _ (by decide), fun hne => absurd rfl hne⟩
        · rename_i hassigned
          rw [latestInbound_eq_none_iff.2 (hcool.resolve_left fun hboth =>
            hassigned (Bool.and_eq_true_iff.2 hboth))] at hdefer
          dsimp only at hdefer
          split at hdefer
          · cases hdefer
          · split at hdefer
            · cases hdefer
            · rename_i window hwindow
              split at hdefer
              · rename_i hlt
                cases hdefer
                exact ⟨hlt, fun _ later => timing_of_open (sendWindow_again hwindow) later⟩
              · cases hdefer

end

/-- A contact, one marketing message at time 0, and a message from the contact, too. -/
def edgeFacts (weeklyCap : Option ℕ) (cooldown : ℕ) : PolicyFacts where
  rules := { weeklyCap, cooldownHoursAfterConversation := cooldown }
  contact id :=
    if id = "c1" then
      some { id := "c1", email := some "kari@example.test", consentLawfulBasis := some "consent" }
    else none
  contact_id id c h := by
    split at h
    · rename_i hid
      rw [← Option.some.inj h, hid]
    · cases h
  sendTimes _ := [0]
  inboundTimes _ := [0]

/-- A day after its last marketing message, a contact whose cap is one a week is put off until a
week after it, and then until the same moment; so it is with a cooldown of a day. -/
theorem deferral_stands_still :
    checkSendPolicy (edgeFacts (some 1) 0) { class' := .marketing } 86400000 "c1" =
      .defer 604800000 "frequency_cap" ∧
    checkSendPolicy (edgeFacts (some 1) 0) { class' := .marketing } 604800000 "c1" =
      .defer 604800000 "frequency_cap" ∧
    checkSendPolicy (edgeFacts none 24) { class' := .marketing } 3600000 "c1" =
      .defer 86400000 "recent_conversation" ∧
    checkSendPolicy (edgeFacts none 24) { class' := .marketing } 86400000 "c1" =
      .defer 86400000 "recent_conversation" ∧
    ¬ Progresses (edgeFacts (some 1) 0) { class' := .marketing } 86400000 "c1" := by
  have hcap : checkSendPolicy (edgeFacts (some 1) 0) { class' := .marketing } 86400000 "c1" =
      .defer 604800000 "frequency_cap" := by decide +kernel
  have hagain : checkSendPolicy (edgeFacts (some 1) 0) { class' := .marketing } 604800000 "c1" =
      .defer 604800000 "frequency_cap" := by decide +kernel
  refine ⟨hcap, hagain, by decide +kernel, by decide +kernel, fun h => ?_⟩
  exact (h _ _ hcap).2 (by decide) _ hagain

end Munin
