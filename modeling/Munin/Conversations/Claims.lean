import Munin.Foundations.Instant
import Munin.Foundations.Machine
import Mathlib.Data.List.Nodup

/-!
# Claims of a conversation

A user claims a conversation for a while, another one takes it over with force, and the holder, or
anybody with force, releases it. Each request is a transaction: it reads the active claim, if there
is one, and then updates, inserts or deletes a row by its id, without another look at it. Nothing in
the schema keeps a conversation from having two claims.

* **`ClaimsState.step`** — the statements of any number of requests for one conversation. A write is
  visible from the commit on; until then the row is locked, so it counts as made with the commit.
* **`ClaimLaw`** — there is at most one active claim, and it is that of the last success.
* **`HeldAsRead`** — nobody else has claimed the conversation between a request's read and its
  write.
* **`one_holder`** — runs that meet the condition keep the law.
* **`two_holders`** — two claims that both find the conversation free.
-/

namespace Munin

open Foundations

/-- A row of `claims` for the conversation. -/
structure ClaimRow where
  id : String
  userId : String
  expiresAt : Instant
  createdAt : Instant
  deriving DecidableEq

/-- A request to claim that has read, with the start of its transaction. -/
structure ClaimCall where
  claimer : String
  started : Instant
  force : Bool
  expiresAt : Instant
  existing : Option ClaimRow

/-- A request to release that has found a claim. -/
structure ReleaseCall where
  force : Bool
  existing : ClaimRow

/-- What requests were told: a claim succeeded, or the claim of a holder was released. -/
inductive ClaimEvent where
  | claimed (holderId : String) (expiresAt : Instant) (force : Bool)
  | released (holderId : String) (force : Bool)

/-- The claims of the conversation, the requests under way, and what was answered, the latest
first. -/
structure ClaimsState where
  clock : Instant := 0
  rows : List ClaimRow := []
  claims : ℕ → Option ClaimCall := fun _ => none
  releases : ℕ → Option ReleaseCall := fun _ => none
  history : List ClaimEvent := []

def DEFAULT_TTL_MS : ℤ := 30 * 60 * 1000

/-- `findActiveClaim` at the start `started` of the transaction: no claim, or one of those that are
active. -/
def findActiveClaim (rows : List ClaimRow) (started : Instant) (picked : Option String) :
    Option (Option ClaimRow) :=
  match picked with
  | none => if rows.all (·.expiresAt ≤ started) then some none else none
  | some id => (rows.find? fun row => row.id = id && started < row.expiresAt).map some

/-- A statement, with what the world decides: the clock, which of several claims is found, and new
ids. -/
inductive ClaimMove where
  | tick (now : Instant)
  | readClaim (call : ℕ) (claimer : String) (force : Bool) (ttlMs : Option ℤ)
    (started computed : Instant) (picked : Option String)
  | writeClaim (call : ℕ) (id : String)
  | readRelease (call : ℕ) (claimer : Option String) (force : Bool) (started : Instant)
    (picked : Option String)
  | writeRelease (call : ℕ)

/-- One statement. Requests that are refused, and a release that finds nothing, change nothing and
are no steps. -/
def ClaimsState.step (s : ClaimsState) : ClaimMove → Option ClaimsState
  | .tick now => if s.clock ≤ now then some { s with clock := now } else none
  | .readClaim call claimer force ttlMs started computed picked =>
    if (s.claims call).isNone ∧ started ≤ computed ∧ computed ≤ s.clock then
      (findActiveClaim s.rows started picked).bind fun existing =>
        if existing.any (·.userId ≠ claimer) && !force then none
        else some { s with
          claims := fun c => if c = call then
            some ⟨claimer, started, force, computed + ttlMs.getD DEFAULT_TTL_MS, existing⟩
            else s.claims c }
    else none
  | .writeClaim call id =>
    (s.claims call).bind fun ⟨claimer, started, force, expiresAt, existing⟩ =>
      let ended : ClaimsState :=
        { s with claims := fun c => if c = call then none else s.claims c }
      let granted := ClaimEvent.claimed claimer expiresAt force :: s.history
      match existing with
      | some row =>
        -- an update that finds no row has no result to return, and the request fails
        if s.rows.any (·.id = row.id) then
          some { ended with
            rows := s.rows.map fun r =>
              if r.id = row.id then { r with expiresAt := expiresAt, userId := claimer } else r
            history := granted }
        else some ended
      | none =>
        if s.rows.any (·.id = id) then none
        else some { ended with
          rows := s.rows ++ [⟨id, claimer, expiresAt, started⟩], history := granted }
  | .readRelease call claimer force started picked =>
    if (s.releases call).isNone ∧ started ≤ s.clock then
      (findActiveClaim s.rows started picked).bind fun existing =>
        existing.bind fun row =>
          if !force && claimer ≠ some row.userId then none
          else some { s with
            releases := fun c => if c = call then some ⟨force, row⟩ else s.releases c }
    else none
  | .writeRelease call =>
    (s.releases call).map fun ⟨force, existing⟩ =>
      { s with
        rows := s.rows.filter (·.id ≠ existing.id)
        releases := fun c => if c = call then none else s.releases c
        history := if s.rows.any (·.id = existing.id) then
          .released existing.userId force :: s.history else s.history }

/-- The requests for one conversation. -/
def claimMachine : Machine ClaimsState ClaimMove := ⟨ClaimsState.step⟩

/-- Nobody has claimed the conversation. -/
def ClaimsState.Unclaimed (s : ClaimsState) : Prop :=
  s.rows = [] ∧ s.claims = (fun _ => none) ∧ s.releases = (fun _ => none) ∧ s.history = []

/-! ### The law -/

/-- A claim as its holder was told of it. -/
structure Held where
  holderId : String
  expiresAt : Instant

/-- The claims that succeeded and were neither renewed, nor released, nor taken over or released
with force, the latest first. -/
def openClaims : List ClaimEvent → List Held
  | [] => []
  | .claimed holderId expiresAt force :: es =>
    ⟨holderId, expiresAt⟩ :: (openClaims es).filter fun h => !(force || h.holderId = holderId)
  | .released holderId force :: es =>
    (openClaims es).filter fun h => !(force || h.holderId = holderId)

/-- The claims that have not expired. -/
def ClaimsState.active (s : ClaimsState) : List ClaimRow :=
  s.rows.filter (s.clock < ·.expiresAt)

/-- At most one claim is active, and whoever was told to hold the conversation holds it. -/
structure ClaimLaw (s : ClaimsState) : Prop where
  exclusive : s.active.length ≤ 1
  named : ∀ h ∈ openClaims s.history, s.clock < h.expiresAt →
    ∃ row ∈ s.active, row.userId = h.holderId ∧ row.expiresAt = h.expiresAt

/-- The claims are still as a request to claim has read them, as far as it goes: free if it found
none, and else with no other one, whose holder is the claimer unless it takes over. -/
def ClaimCall.HeldAsRead (s : ClaimsState) (call : ClaimCall) : Prop :=
  (call.existing = none → s.active = []) ∧
    ∀ row ∈ call.existing, (∀ other ∈ s.active, other.id = row.id) ∧
      (call.force = false → ∀ r ∈ s.rows, r.id = row.id → r.userId = call.claimer)

/-- The claim that a request is to release still has the holder that it read, unless it has
force. -/
def ReleaseCall.HeldAsRead (s : ClaimsState) (call : ReleaseCall) : Prop :=
  call.force = false → ∀ r ∈ s.rows, r.id = call.existing.id → r.userId = call.existing.userId

/-- What a write finds is what its request has read. -/
def HeldAsRead (s : ClaimsState) : ClaimMove → Prop
  | .writeClaim call _ => ∀ c ∈ s.claims call, c.HeldAsRead s
  | .writeRelease call => ∀ c ∈ s.releases call, c.HeldAsRead s
  | _ => True

instance (s : ClaimsState) (call : ClaimCall) : Decidable (call.HeldAsRead s) := by
  unfold ClaimCall.HeldAsRead
  infer_instance

instance (s : ClaimsState) (call : ReleaseCall) : Decidable (call.HeldAsRead s) := by
  unfold ReleaseCall.HeldAsRead
  infer_instance

instance (s : ClaimsState) : ∀ a, Decidable (HeldAsRead s a)
  | .writeClaim call _ => inferInstanceAs (Decidable (∀ c ∈ s.claims call, c.HeldAsRead s))
  | .writeRelease call => inferInstanceAs (Decidable (∀ c ∈ s.releases call, c.HeldAsRead s))
  | .tick _ | .readClaim .. | .readRelease .. => inferInstanceAs (Decidable True)

/-! ### The law is kept -/

/-- The invariant: the law, and the primary key. -/
structure ClaimsOk (s : ClaimsState) : Prop where
  law : ClaimLaw s
  ids : (s.rows.map (·.id)).Nodup

section Keeps

variable {s t : ClaimsState}

theorem mem_active {row : ClaimRow} :
    row ∈ s.active ↔ row ∈ s.rows ∧ s.clock < row.expiresAt := by
  rw [ClaimsState.active, List.mem_filter, decide_eq_true_eq]

/-- Active claims of one id are at most one. -/
theorem active_length_le_one (hids : (s.rows.map (·.id)).Nodup) (id : String)
    (h : ∀ row ∈ s.active, row.id = id) : s.active.length ≤ 1 := by
  have hnodup : (s.active.map (·.id)).Nodup := hids.sublist (List.filter_sublist.map _)
  match hrows : s.active with
  | [] => exact Nat.zero_le 1
  | [_] => exact Nat.le_refl 1
  | a :: b :: rest =>
    have hab : a.id = b.id := (h a (by simp [hrows])).trans (h b (by simp [hrows])).symm
    simp [hrows, hab] at hnodup

variable {es : List ClaimEvent}

/-- What is open after a claim: it, and the others unless it came with force or is theirs. -/
theorem mem_openClaims_claimed {holderId : String} {expiresAt : Instant} {force : Bool} {h : Held} :
    h ∈ openClaims (.claimed holderId expiresAt force :: es) ↔ h = ⟨holderId, expiresAt⟩ ∨
      (h ∈ openClaims es ∧ force = false ∧ h.holderId ≠ holderId) := by
  simp [openClaims]

theorem mem_openClaims_released {holderId : String} {force : Bool}
    {h : Held} : h ∈ openClaims (.released holderId force :: es) ↔
      h ∈ openClaims es ∧ force = false ∧ h.holderId ≠ holderId := by
  simp [openClaims]

/-- Time passes: claims expire. -/
theorem ClaimsOk.tick (hs : ClaimsOk s) {now : Instant} (h : s.step (.tick now) = some t) :
    ClaimsOk t := by
  rw [ClaimsState.step] at h
  split at h
  · rename_i hnow
    obtain rfl := Option.some.inj h
    have hsub : (s.rows.filter (now < ·.expiresAt)).Sublist s.active := by
      refine List.monotone_filter_right s.rows fun row hrow => ?_
      rw [decide_eq_true_eq] at hrow ⊢
      exact Int.lt_of_le_of_lt hnow hrow
    refine ⟨⟨Nat.le_trans hsub.length_le hs.law.exclusive, fun h hopen hlt => ?_⟩, hs.ids⟩
    obtain ⟨row, hrow, huser, hexp⟩ := hs.law.named h hopen (Int.lt_of_le_of_lt hnow hlt)
    exact ⟨row, mem_active.2 ⟨(mem_active.1 hrow).1, hexp ▸ hlt⟩, huser, hexp⟩
  · cases h

/-- The primary key survives an update by id. -/
theorem map_id_update (rows : List ClaimRow) (id claimer : String) (expiresAt : Instant) :
    (rows.map fun r => if r.id = id then { r with expiresAt := expiresAt, userId := claimer } else
      r).map (·.id) = rows.map (·.id) := by
  rw [List.map_map]
  refine List.map_congr_left fun r _ => ?_
  by_cases hid : r.id = id
  · simp [hid]
  · simp [hid]

/-- A write that finds what its request has read leaves one active claim, the claimer's. -/
theorem ClaimsOk.writeClaim (hs : ClaimsOk s) {call : ℕ} {id : String}
    (hok : HeldAsRead s (.writeClaim call id)) (h : s.step (.writeClaim call id) = some t) :
    ClaimsOk t := by
  rw [ClaimsState.step] at h
  obtain ⟨⟨claimer, started, force, expiresAt, existing⟩, hcall, h⟩ := Option.bind_eq_some_iff.1 h
  obtain ⟨hfree, hheld⟩ := hok _ hcall
  cases existing with
  | none =>
    dsimp only at h
    split at h
    · cases h
    rename_i hfresh
    obtain rfl := Option.some.inj h
    have hactive : s.active = [] := hfree rfl
    refine ⟨⟨?_, fun h hopen hlt => ?_⟩, ?_⟩
    · have hrows : s.rows.filter (s.clock < ·.expiresAt) = [] := hactive
      rw [ClaimsState.active]
      dsimp only
      rw [List.filter_append, hrows, List.nil_append]
      exact List.length_filter_le _ _
    · rcases mem_openClaims_claimed.1 hopen with rfl | ⟨hold, -⟩
      · exact ⟨⟨id, claimer, expiresAt, started⟩,
          mem_active.2 ⟨List.mem_append_right _ (List.mem_singleton.2 rfl), hlt⟩, rfl, rfl⟩
      · obtain ⟨row, hrow, -⟩ := hs.law.named h hold hlt
        rw [hactive] at hrow
        cases hrow
    · rw [List.map_append, List.nodup_append]
      refine ⟨hs.ids, List.nodup_singleton _, ?_⟩
      rintro a ha b hb rfl
      obtain ⟨row, hrow, rfl⟩ := List.mem_map.1 ha
      rw [List.map_singleton, List.mem_singleton] at hb
      exact hfresh (List.any_eq_true.2 ⟨row, hrow, decide_eq_true hb⟩)
  | some row =>
    obtain ⟨honly, hmine⟩ := hheld row rfl
    dsimp only at h
    split at h
    · rename_i hthere
      obtain rfl := Option.some.inj h
      obtain ⟨r, hr, hid⟩ := List.any_eq_true.1 hthere
      rw [decide_eq_true_eq] at hid
      have hids := map_id_update s.rows row.id claimer expiresAt ▸ hs.ids
      refine ⟨⟨active_length_le_one hids row.id ?_, fun h hopen hlt => ?_⟩, hids⟩
      · intro other hother
        obtain ⟨hmem, hlt⟩ := mem_active.1 hother
        obtain ⟨r', hr', rfl⟩ := List.mem_map.1 hmem
        by_cases hr'id : r'.id = row.id
        · rw [if_pos hr'id]
          exact hr'id
        · rw [if_neg hr'id] at hlt ⊢
          exact honly r' (mem_active.2 ⟨hr', hlt⟩)
      · rcases mem_openClaims_claimed.1 hopen with rfl | ⟨hold, hforce, hother⟩
        · exact ⟨{ r with expiresAt := expiresAt, userId := claimer },
            mem_active.2 ⟨List.mem_map.2 ⟨r, hr, if_pos hid⟩, hlt⟩, rfl, rfl⟩
        · -- whoever else was told to hold the conversation would have the only row, the claimer's
          obtain ⟨r', hr', huser, -⟩ := hs.law.named h hold hlt
          have hclaimer := hmine hforce r' (mem_active.1 hr').1 (honly r' hr')
          exact absurd (huser.symm.trans hclaimer) hother
    · obtain rfl := Option.some.inj h
      exact ⟨⟨hs.law.exclusive, hs.law.named⟩, hs.ids⟩

/-- A release that finds the holder it has read ends the claim of that holder only. -/
theorem ClaimsOk.writeRelease (hs : ClaimsOk s) {call : ℕ}
    (hok : HeldAsRead s (.writeRelease call)) (h : s.step (.writeRelease call) = some t) :
    ClaimsOk t := by
  rw [ClaimsState.step] at h
  obtain ⟨⟨force, existing⟩, hcall, rfl⟩ := Option.map_eq_some_iff.1 h
  have hheld := hok _ hcall
  have hsub : (s.rows.filter (·.id ≠ existing.id)).Sublist s.rows := List.filter_sublist
  refine ⟨⟨Nat.le_trans (hsub.filter _).length_le hs.law.exclusive, fun h hopen hlt => ?_⟩,
    hs.ids.sublist (hsub.map _)⟩
  have hkeep : h ∈ openClaims s.history ∧ ∀ r ∈ s.active, r.userId = h.holderId →
      r.id ≠ existing.id := by
    dsimp only at hopen
    split at hopen
    · obtain ⟨hold, hforce, hother⟩ := mem_openClaims_released.1 hopen
      refine ⟨hold, fun r hr huser hid => hother ?_⟩
      exact huser.symm.trans (hheld hforce r (mem_active.1 hr).1 hid)
    · rename_i hnone
      refine ⟨hopen, fun r hr _ hid => hnone ?_⟩
      exact List.any_eq_true.2 ⟨r, (mem_active.1 hr).1, decide_eq_true hid⟩
  obtain ⟨row, hrow, huser, hexp⟩ := hs.law.named h hkeep.1 hlt
  refine ⟨row, mem_active.2 ⟨List.mem_filter.2 ⟨(mem_active.1 hrow).1, ?_⟩, (mem_active.1 hrow).2⟩,
    huser, hexp⟩
  exact decide_eq_true (hkeep.2 row hrow huser)

/-- Reading changes nothing that the law is about. -/
theorem ClaimsOk.of_eq (hs : ClaimsOk s) (hclock : t.clock = s.clock) (hrows : t.rows = s.rows)
    (hhistory : t.history = s.history) : ClaimsOk t := by
  obtain ⟨⟨hexclusive, hnamed⟩, hids⟩ := hs
  unfold ClaimsState.active at hexclusive hnamed
  refine ⟨⟨?_, ?_⟩, ?_⟩
  · rwa [ClaimsState.active, hclock, hrows]
  · rwa [ClaimsState.active, hclock, hrows, hhistory]
  · rwa [hrows]

theorem ClaimsOk.step (hs : ClaimsOk s) {a : ClaimMove} (hok : HeldAsRead s a)
    (h : s.step a = some t) : ClaimsOk t := by
  cases a with
  | tick now => exact hs.tick h
  | writeClaim call id => exact hs.writeClaim hok h
  | writeRelease call => exact hs.writeRelease hok h
  | readClaim call claimer force ttlMs started computed picked =>
    rw [ClaimsState.step] at h
    split at h
    · obtain ⟨existing, -, h⟩ := Option.bind_eq_some_iff.1 h
      split at h
      · cases h
      · obtain rfl := Option.some.inj h
        exact hs.of_eq rfl rfl rfl
    · cases h
  | readRelease call claimer force started picked =>
    rw [ClaimsState.step] at h
    split at h
    · obtain ⟨existing, -, h⟩ := Option.bind_eq_some_iff.1 h
      obtain ⟨row, -, h⟩ := Option.bind_eq_some_iff.1 h
      split at h
      · cases h
      · obtain rfl := Option.some.inj h
        exact hs.of_eq rfl rfl rfl
    · cases h

end Keeps

/-- **One holder.** If each write finds what its request has read, there is at most one active claim
in every state reached, and it names whoever was told to hold the conversation last, until that
claim expires, is released, or is taken over or released with force. -/
theorem one_holder {s : ClaimsState}
    (h : claimMachine.Reaches ClaimsState.Unclaimed HeldAsRead s) : ClaimLaw s := by
  have hinv : ClaimsOk s := by
    refine h.invariant ?_ fun u v a _ hu hok hstep => hu.step hok hstep
    rintro u ⟨hrows, -, -, hhistory⟩
    refine ⟨⟨by simp [ClaimsState.active, hrows], fun h hopen _ => ?_⟩, by simp [hrows]⟩
    rw [hhistory] at hopen
    cases hopen
  exact hinv.law

/-! ### Two requests at once -/

/-- Two users find the conversation free, and both claim it. -/
def claimedTwice : List ClaimMove :=
  [.readClaim 0 "ada" false none 0 0 none, .readClaim 1 "bob" false none 0 0 none,
    .writeClaim 0 "x", .writeClaim 1 "y"]

/-- **The law fails** when two requests find the conversation free: both are told that they hold
it. -/
theorem two_holders : ∃ s, claimMachine.Reachable ClaimsState.Unclaimed s ∧
    s.active.map (·.userId) = ["ada", "bob"] ∧ ¬ ClaimLaw s := by
  have hrun : (claimMachine.run {} claimedTwice).map (·.active.map (·.userId)) =
      some ["ada", "bob"] := by decide +kernel
  obtain ⟨s, hs, hactive⟩ := Option.map_eq_some_iff.1 hrun
  refine ⟨s, Machine.reachable_of_run ⟨rfl, rfl, rfl, rfl⟩ hs, hactive, fun hlaw => ?_⟩
  have hlength := congrArg List.length hactive
  rw [List.length_map] at hlength
  have hone := hlaw.exclusive
  rw [hlength] at hone
  exact absurd hone (by decide)

/-- One user claims, another one takes over, and the first one's claim is over. -/
def takenOverInTurn : List ClaimMove :=
  [.readClaim 0 "ada" false none 0 0 none, .writeClaim 0 "x", .tick 1000,
    .readClaim 1 "bob" true (some 60000) 1000 1000 (some "x"), .writeClaim 1 "y"]

/-- Requests that come one after the other leave one holder. -/
theorem one_holder_in_turn :
    ∃ s, claimMachine.Reaches ClaimsState.Unclaimed HeldAsRead s ∧
      s.active = [⟨"x", "bob", 61000, 0⟩] ∧ ClaimLaw s := by
  have hrun : (claimMachine.runUnder HeldAsRead {} takenOverInTurn).map (·.active) =
      some [⟨"x", "bob", 61000, 0⟩] := by decide +kernel
  obtain ⟨s, hs, hactive⟩ := Machine.exists_reaches_of_runUnder
    (show ClaimsState.Unclaimed {} from ⟨rfl, rfl, rfl, rfl⟩) hrun
  exact ⟨s, hs, hactive, one_holder hs⟩

end Munin
