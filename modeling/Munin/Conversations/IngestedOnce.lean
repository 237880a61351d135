import Munin.Conversations.ChannelIngest

/-!
# Ingestion, exactly once

The proof that calls under the condition keep the law, and two runs outside of it.

* **`IngestStage.At`** — what a transaction knows at each of its statements; every statement of the
  others leaves it so (`IngestStage.At.beside`).
* **`ingestStmt_spec`** — each statement leads to what the next one relies on.
* **`ingested_once`** — the law holds in runs that meet the condition.
* **`ingested_twice_or_never`** — two deliveries at once store a message twice; a failed message is
  acknowledged.
-/

namespace Munin

open Foundations

/-! ### Updates, commits and aborts -/

section Steps

variable {t : ℕ} {db : IngestDb}

variable {i u t : ℕ} {p : IngestConversation → Bool} {f : IngestConversation → IngestConversation}
  {conversations : TxTable IngestConversation}

/-- What an update leaves to a transaction, its own one included. -/
theorem Sees.update (hplace : ∀ c, (f c).place = c.place)
    (hopened : ∀ c, c.status ≠ .closed → (f c).status ≠ .closed)
    (hup : db.conversations.updateFound t i p f = some conversations) (u : ℕ) :
    Sees u db { db with conversations } := by
  by_cases hu : u = t
  · subst hu
    refine ⟨fun j c hc => ?_, fun _ _ hc => hc⟩
    rcases (TxTable.sight_updateFound hup).seen_kept hc with hkept | hnew
    · exact ⟨c, hkept, rfl, fun h => h⟩
    · exact ⟨f c, hnew, hplace c, hopened c⟩
  · exact (IngestBeside.update hup).sees u hu

theorem IngestDb.Lawful.update (h : db.Lawful) (hplace : ∀ c, (f c).place = c.place)
    (hopened : ∀ c, c.status ≠ .closed → (f c).status ≠ .closed)
    (hkey : ∀ c k, p c = true → c.status ≠ .closed → (f c).key = some k → c.key = some k)
    (hseen : ∀ c, db.conversations.seen t i = some c → c.status ≠ .closed)
    (hup : db.conversations.updateFound t i p f = some conversations) :
    IngestDb.Lawful { db with conversations } := by
  have hat := TxTable.updateFound_eq_some hup
  have hcom : conversations.com = db.conversations.com := funext hat.com
  refine
    { h with
      places := h.places.update (fun c k hc hp => hkey c k hp (hseen c hc)) hup
      kept := fun u j c old hc hold => ?_
      opened := fun u j c hc => ?_
      refers := fun j x hx => ?_
      refersOwn := fun u j x hx => ?_
      stored := fun a ha => (IngestBeside.update hup).stored _ _ (h.stored a ha) }
  · rw [hcom] at hold
    by_cases hu : u = t
    · subst hu
      rcases LookLaw.own_of_update hup hc with hc | ⟨d, rfl, -, -, hd | hd⟩
      · exact h.kept u j c old hc hold
      · exact (hplace d).trans (h.kept u j d old hd hold)
      · obtain rfl := Option.some.inj (hd.symm.trans hold)
        exact hplace d
    · exact h.kept u j c old (hat.other u j hu ▸ hc) hold
  · by_cases hu : u = t
    · subst hu
      rcases LookLaw.own_of_update hup hc with hc | ⟨d, rfl, -, hd, -⟩
      · exact h.opened u j c hc
      · exact hopened d (hseen d hd)
    · exact h.opened u j c (hat.other u j hu ▸ hc)
  · show Refers conversations.com _ x
    rw [hcom]
    exact h.refers j x hx
  · have hsees := Sees.update hplace hopened hup u
    refine (h.refersOwn u j x hx).mono (fun l c hc => ?_) hsees.contacts
    obtain ⟨c', hc', hsame, -⟩ := hsees.conversations l c hc
    exact ⟨c', hc', hsame⟩

/-- What is committed of a conversation stays in its place. -/
theorem IngestDb.Lawful.seen_of_com (h : db.Lawful) {c : IngestConversation}
    (hc : db.conversations.com i = some c) (u : ℕ) :
    ∃ c', db.conversations.seen u i = some c' ∧ c'.place = c.place ∧
      (c.status ≠ .closed → c'.status ≠ .closed) := by
  cases hown : db.conversations.own u i with
  | none => exact ⟨c, TxTable.seen_of_not hown ▸ hc, rfl, fun h => h⟩
  | some d =>
    exact ⟨d, TxTable.seen_of_own hown, h.kept u i d c hown hc, fun _ => h.opened u i d hown⟩

/-- What a transaction sees of a table after the end of another one: its own rows, and what is
committed then. -/
theorem seen_ended {α : Type*} {T T' : TxTable α} {v : α}
    (hown : T'.own u = T.own u) (hv : T.seen u i = some v) :
    T'.seen u i = some v ∨ (T.own u i = none ∧ T.com i = some v ∧ T'.seen u i = T'.com i) := by
  cases hu : T.own u i with
  | none => exact .inr ⟨rfl, TxTable.seen_of_not hu ▸ hv, TxTable.seen_of_not (hown ▸ hu)⟩
  | some w =>
    obtain rfl := Option.some.inj ((TxTable.seen_of_own hu).symm.trans hv)
    exact .inl (TxTable.seen_of_own (hown ▸ hu))

theorem own_commit_other {α : Type*} (T : TxTable α) (hu : u ≠ t) : (T.commit t).own u = T.own u :=
  funext fun i => (TxTable.own_commit T t u i).trans (if_neg hu)

theorem own_abort_other {α : Type*} (T : TxTable α) (hu : u ≠ t) : (T.abort t).own u = T.own u :=
  funext fun i => (TxTable.own_abort T t u i).trans (if_neg hu)

theorem seen_abort_other {α : Type*} (T : TxTable α) (hu : u ≠ t) :
    (T.abort t).seen u = T.seen u := by
  funext i
  rw [TxTable.seen, TxTable.seen, own_abort_other T hu, TxTable.com_abort]

/-- What has been looked for, after a transaction's end. -/
theorem mem_looked_ended {looked : List (ℕ × Lookup)} (u : ℕ) (l : Lookup) :
    (u, l) ∈ looked.filter (·.1 ≠ t) ↔ u ≠ t ∧ (u, l) ∈ looked := by
  rw [List.mem_filter, decide_eq_true_eq]
  exact and_comm

theorem IngestBeside.commit (h : db.Lawful) : IngestBeside t db (db.commit t) where
  contacts _ hu := own_commit_other _ hu
  conversations _ hu := own_commit_other _ hu
  messages _ hu := own_commit_other _ hu
  sees u hu :=
    { conversations := fun i c hc => by
        rcases seen_ended (own_commit_other db.conversations hu) hc with hsame | ⟨-, hcom, heq⟩
        · exact ⟨c, hsame, rfl, fun h => h⟩
        · obtain ⟨c', hc', hkept⟩ := h.seen_of_com hcom t
          exact ⟨c', by rw [IngestDb.commit, heq, TxTable.com_commit, hc'], hkept⟩
      contacts := fun i c hc => by
        rcases seen_ended (own_commit_other db.contacts hu) hc with hsame | ⟨-, hcom, heq⟩
        · exact hsame
        · exact heq.trans (h.contacts.com_commit hcom) }
  looked e he := by
    rw [IngestDb.commit, mem_looked_ended e.1 e.2]
    exact and_iff_right he
  stored channelId id hstored := by
    obtain ⟨i, x, hx, hid, c, hc, hchannel⟩ := hstored
    obtain ⟨c', hc', hplace, -⟩ := h.seen_of_com hc t
    refine ⟨i, x, h.messages.com_commit hx, hid, c', ?_, (congrArg Prod.fst hplace).trans hchannel⟩
    exact (TxTable.com_commit _ _ _).trans hc'

theorem IngestDb.Lawful.commit (h : db.Lawful) (hquiet : QuietCommit t db) :
    (db.commit t).Lawful := by
  have hothers : ∀ u l, (u, l) ∈ (db.commit t).looked → ¬ (db.commit t).Shows l := fun u l hl =>
    have hmem := (mem_looked_ended u l).1 hl
    hquiet (u, l) hmem.2 hmem.1
  -- what the transaction saw is what is committed now
  have hcontacts : (db.commit t).contacts.com = db.contacts.seen t :=
    funext fun i => TxTable.com_commit _ t i
  have hconversations : (db.commit t).conversations.com = db.conversations.seen t :=
    funext fun i => TxTable.com_commit _ t i
  refine
    { ids := h.ids.commit (fun u k => mem_looked_ended u _) fun u k hk i x hx hid => ?_
      emails := h.emails.commit (fun u k => mem_looked_ended u _) fun u k hk i x hx hid => ?_
      phones := h.phones.commit (fun u k => mem_looked_ended u _) fun u k hk i x hx hid => ?_
      places := h.places.commit (fun u k => mem_looked_ended u _) fun u k hk i x hx hid => ?_
      contacts := h.contacts.commit
      messages := h.messages.commit
      kept := fun u i c old hc hold => ?_
      opened := fun u i c hc => ?_
      refers := fun i x hx => ?_
      refersOwn := fun u i x hx => ?_
      stored := fun a ha => (IngestBeside.commit h).stored _ _ (h.stored a ha) }
  · exact hothers u _ hk ((IngestDb.shows_iff _).2 ⟨i, x, hx, Option.some.inj hid⟩)
  · exact hothers u _ hk ((IngestDb.shows_iff _).2 ⟨i, x, hx, hid⟩)
  · exact hothers u _ hk ((IngestDb.shows_iff _).2 ⟨i, x, hx, hid⟩)
  · exact hothers u _ hk ((IngestDb.shows_iff _).2 ⟨i, x, hx, hid⟩)
  · replace hc := (TxTable.own_commit db.conversations t u i).symm.trans hc
    split at hc
    · cases hc
    · rename_i hu
      rw [hconversations, TxTable.seen_of_not (TxTable.own_eq_none_of_own hc (Ne.symm hu))] at hold
      exact h.kept u i c old hc hold
  · replace hc := (TxTable.own_commit db.conversations t u i).symm.trans hc
    split at hc
    · cases hc
    · exact h.opened u i c hc
  · rw [hconversations, hcontacts]
    replace hx := (TxTable.com_commit db.messages t i).symm.trans hx
    cases hown : db.messages.own t i with
    | none =>
      refine (h.refers i x (TxTable.seen_of_not hown ▸ hx)).mono (fun l c hc => ?_) fun l c hc => ?_
      · obtain ⟨c', hc', hsame, -⟩ := h.seen_of_com hc t
        exact ⟨c', hc', hsame⟩
      · exact h.contacts.seen_of_com hc
    | some y =>
      obtain rfl := Option.some.inj ((TxTable.seen_of_own hown).symm.trans hx)
      exact h.refersOwn t i y hown
  · replace hx := (TxTable.own_commit db.messages t u i).symm.trans hx
    split at hx
    · cases hx
    · rename_i hu
      have hsees := (IngestBeside.commit h).sees u hu
      refine (h.refersOwn u i x hx).mono (fun l c hc => ?_) hsees.contacts
      obtain ⟨c', hc', hsame, -⟩ := hsees.conversations l c hc
      exact ⟨c', hc', hsame⟩

theorem IngestBeside.abort : IngestBeside t db (db.abort t) where
  contacts _ hu := own_abort_other _ hu
  conversations _ hu := own_abort_other _ hu
  messages _ hu := own_abort_other _ hu
  sees _ hu := .of_eq (seen_abort_other _ hu) (seen_abort_other _ hu)
  looked e he := by
    rw [IngestDb.abort, mem_looked_ended e.1 e.2]
    exact and_iff_right he
  stored channelId id hstored := by
    obtain ⟨i, x, hx, hid, c, hc, hchannel⟩ := hstored
    exact ⟨i, x, (TxTable.com_abort _ t i).trans hx, hid, c,
      (TxTable.com_abort _ t _).trans hc, hchannel⟩

theorem IngestDb.Lawful.abort (h : db.Lawful) : (db.abort t).Lawful := by
  have hcontacts : (db.abort t).contacts.com = db.contacts.com :=
    funext fun i => TxTable.com_abort _ t i
  have hconversations : (db.abort t).conversations.com = db.conversations.com :=
    funext fun i => TxTable.com_abort _ t i
  refine
    { ids := h.ids.abort fun u k => mem_looked_ended u _
      emails := h.emails.abort fun u k => mem_looked_ended u _
      phones := h.phones.abort fun u k => mem_looked_ended u _
      places := h.places.abort fun u k => mem_looked_ended u _
      contacts := h.contacts.abort
      messages := h.messages.abort
      kept := fun u i c old hc hold => ?_
      opened := fun u i c hc => ?_
      refers := fun i x hx => ?_
      refersOwn := fun u i x hx => ?_
      stored := fun a ha => IngestBeside.abort.stored _ _ (h.stored a ha) }
  · replace hc := (TxTable.own_abort db.conversations t u i).symm.trans hc
    split at hc
    · cases hc
    · rw [hconversations] at hold
      exact h.kept u i c old hc hold
  · replace hc := (TxTable.own_abort db.conversations t u i).symm.trans hc
    split at hc
    · cases hc
    · exact h.opened u i c hc
  · rw [hconversations, hcontacts]
    exact h.refers i x ((TxTable.com_abort db.messages t i).symm.trans hx)
  · replace hx := (TxTable.own_abort db.messages t u i).symm.trans hx
    split at hx
    · cases hx
    · rename_i hu
      have hsees := (IngestBeside.abort : IngestBeside t db _).sees u hu
      refine (h.refersOwn u i x hx).mono (fun l c hc => ?_) hsees.contacts
      obtain ⟨c', hc', hsame, -⟩ := hsees.conversations l c hc
      exact ⟨c', hc', hsame⟩

end Steps

/-! ### What a transaction knows -/

namespace IngestDb

variable (db : IngestDb) (t : ℕ)

/-- The transaction has written nothing. -/
structure Idle : Prop where
  contacts : ∀ i, db.contacts.own t i = none
  conversations : ∀ i, db.conversations.own t i = none
  messages : ∀ i, db.messages.own t i = none

/-- A contact has the names of a sender. -/
def Named (s : IngestSender) (contact : ℕ) : Prop :=
  ∃ c, db.contacts.seen t contact = some c ∧ (∀ e, s.email = some e → c.email = some e) ∧
    (s.email = none → ∀ p, s.phone = some p → c.phone = some p)

/-- A conversation is at a place, and not closed. -/
def At (place : String × ℕ) (i : ℕ) : Prop :=
  ∃ c, db.conversations.seen t i = some c ∧ c.place = place ∧ c.status ≠ .closed

/-- The transaction has stored a message on a channel. -/
def Written (channelId id : String) : Prop :=
  ∃ i x, db.messages.own t i = some x ∧ x.providerMessageId = id ∧
    ∃ c, db.conversations.seen t x.conversation = some c ∧ c.channelId = channelId

variable {db t} {db' : IngestDb}

theorem Named.mono {s : IngestSender} {contact : ℕ} (h : db.Named t s contact)
    (hsees : Sees t db db') : db'.Named t s contact := by
  obtain ⟨c, hc, hnames⟩ := h
  exact ⟨c, hsees.contacts _ c hc, hnames⟩

theorem At.mono {place : String × ℕ} {i : ℕ} (h : db.At t place i) (hsees : Sees t db db') :
    db'.At t place i := by
  obtain ⟨c, hc, rfl, hopened⟩ := h
  obtain ⟨c', hc', hplace, hstatus⟩ := hsees.conversations i c hc
  exact ⟨c', hc', hplace, hstatus hopened⟩

theorem Written.mono {channelId id : String} (h : db.Written t channelId id)
    (hmessages : db'.messages.own t = db.messages.own t) (hsees : Sees t db db') :
    db'.Written t channelId id := by
  obtain ⟨i, x, hx, hid, c, hc, hchannel⟩ := h
  obtain ⟨c', hc', hplace, -⟩ := hsees.conversations _ c hc
  exact ⟨i, x, by rw [hmessages, hx], hid, c', hc', (congrArg Prod.fst hplace).trans hchannel⟩

/-- What it has stored is committed with it. -/
theorem Written.stored {channelId id : String} (h : db.Written t channelId id) :
    (db.commit t).Stored channelId id := by
  obtain ⟨i, x, hx, hid, c, hc, hchannel⟩ := h
  refine ⟨i, x, ?_, hid, c, (TxTable.com_commit _ t _).trans hc, hchannel⟩
  exact (TxTable.com_commit _ t i).trans (TxTable.seen_of_own hx)

theorem idle_commit (db : IngestDb) (t : ℕ) : (db.commit t).Idle t where
  contacts i := (TxTable.own_commit _ t t i).trans (if_pos rfl)
  conversations i := (TxTable.own_commit _ t t i).trans (if_pos rfl)
  messages i := (TxTable.own_commit _ t t i).trans (if_pos rfl)

theorem idle_abort (db : IngestDb) (t : ℕ) : (db.abort t).Idle t where
  contacts i := (TxTable.own_abort _ t t i).trans (if_pos rfl)
  conversations i := (TxTable.own_abort _ t t i).trans (if_pos rfl)
  messages i := (TxTable.own_abort _ t t i).trans (if_pos rfl)

theorem Idle.beside {u : ℕ} (h : db.Idle u) (hb : IngestBeside t db db') (hu : u ≠ t) :
    db'.Idle u where
  contacts i := by rw [hb.contacts u hu, h.contacts]
  conversations i := by rw [hb.conversations u hu, h.conversations]
  messages i := by rw [hb.messages u hu, h.messages]

end IngestDb

section Calls

variable (toLowerCase : String → String) (t : ℕ)

/-- What a transaction knows before each of its statements. -/
def IngestStage.At (channelId : String) (m : InboundMessage) (db : IngestDb) : IngestStage → Prop
  | .findDuplicate => db.Idle t
  | .findByEmail => db.Idle t ∧ (t, .message m.providerMessageId) ∈ db.looked
  | .findByPhone => db.Idle t ∧ (t, .message m.providerMessageId) ∈ db.looked ∧
      ∀ e, (m.fromIdentity.sender toLowerCase).email = some e → (t, .email e) ∈ db.looked
  | .insertContact => db.Idle t ∧ (t, .message m.providerMessageId) ∈ db.looked ∧
      (∀ e, (m.fromIdentity.sender toLowerCase).email = some e → (t, .email e) ∈ db.looked) ∧
      ∀ p, (m.fromIdentity.sender toLowerCase).phone = some p → (t, .phone p) ∈ db.looked
  | .findConversation contact =>
      (∀ i, db.conversations.own t i = none) ∧ (∀ i, db.messages.own t i = none) ∧
      (t, .message m.providerMessageId) ∈ db.looked ∧
      db.Named t (m.fromIdentity.sender toLowerCase) contact
  | .insertConversation contact =>
      (∀ i, db.conversations.own t i = none) ∧ (∀ i, db.messages.own t i = none) ∧
      (t, .message m.providerMessageId) ∈ db.looked ∧
      db.Named t (m.fromIdentity.sender toLowerCase) contact ∧
      (t, .conversation (channelId, contact)) ∈ db.looked
  | .reopen contact i | .insertMessage contact i =>
      (∀ j, db.messages.own t j = none) ∧ (t, .message m.providerMessageId) ∈ db.looked ∧
      db.Named t (m.fromIdentity.sender toLowerCase) contact ∧ db.At t (channelId, contact) i
  | .updateConversation _ i =>
      db.Written t channelId m.providerMessageId ∧ ∃ place, db.At t place i
  | .commit => db.Written t channelId m.providerMessageId

/-- What a call knows: between its messages the transaction has written nothing, and what it is done
with is stored. -/
def IngestPoint.At (db : IngestDb) : IngestPoint → Prop
  | .between call => db.Idle t ∧ ∀ id ∈ call.taken, db.Stored call.channelId id
  | .ingestOne call m stage => stage.At toLowerCase t call.channelId m db ∧
      ∀ id ∈ call.taken, db.Stored call.channelId id

variable {toLowerCase t} {u : ℕ} {channelId : String} {m : InboundMessage} {db db' : IngestDb}

/-- **The statements of the others leave it so.** -/
theorem IngestStage.At.beside {stage : IngestStage} (h : stage.At toLowerCase u channelId m db)
    (hb : IngestBeside t db db') (hu : u ≠ t) : stage.At toLowerCase u channelId m db' := by
  have hlooked : ∀ l, (u, l) ∈ db.looked → (u, l) ∈ db'.looked := fun l => (hb.looked (u, l) hu).2
  have hsees := hb.sees u hu
  have hconversations : (∀ i, db.conversations.own u i = none) →
      ∀ i, db'.conversations.own u i = none := fun h i => by rw [hb.conversations u hu, h]
  have hmessages : (∀ i, db.messages.own u i = none) → ∀ i, db'.messages.own u i = none :=
    fun h i => by rw [hb.messages u hu, h]
  cases stage with
  | findDuplicate => exact IngestDb.Idle.beside h hb hu
  | findByEmail => exact ⟨h.1.beside hb hu, hlooked _ h.2⟩
  | findByPhone =>
    obtain ⟨hidle, hid, hemail⟩ := h
    exact ⟨hidle.beside hb hu, hlooked _ hid, fun e he => hlooked _ (hemail e he)⟩
  | insertContact =>
    obtain ⟨hidle, hid, hemail, hphone⟩ := h
    exact ⟨hidle.beside hb hu, hlooked _ hid, fun e he => hlooked _ (hemail e he),
      fun p hp => hlooked _ (hphone p hp)⟩
  | findConversation contact =>
    obtain ⟨hc, hm, hid, hnamed⟩ := h
    exact ⟨hconversations hc, hmessages hm, hlooked _ hid, hnamed.mono hsees⟩
  | insertConversation contact =>
    obtain ⟨hc, hm, hid, hnamed, hplace⟩ := h
    exact ⟨hconversations hc, hmessages hm, hlooked _ hid, hnamed.mono hsees, hlooked _ hplace⟩
  | reopen contact i =>
    obtain ⟨hm, hid, hnamed, hat⟩ := h
    exact ⟨hmessages hm, hlooked _ hid, hnamed.mono hsees, hat.mono hsees⟩
  | insertMessage contact i =>
    obtain ⟨hm, hid, hnamed, hat⟩ := h
    exact ⟨hmessages hm, hlooked _ hid, hnamed.mono hsees, hat.mono hsees⟩
  | updateConversation contact i =>
    obtain ⟨hwritten, place, hat⟩ := h
    exact ⟨hwritten.mono (hb.messages u hu) hsees, place, hat.mono hsees⟩
  | commit => exact IngestDb.Written.mono h (hb.messages u hu) hsees

theorem IngestPoint.At.beside {p : IngestPoint} (h : p.At toLowerCase u db)
    (hb : IngestBeside t db db') (hu : u ≠ t) : p.At toLowerCase u db' := by
  cases p with
  | between call => exact ⟨h.1.beside hb hu, fun id hid => hb.stored _ id (h.2 id hid)⟩
  | ingestOne call m stage =>
    exact ⟨h.1.beside hb hu, fun id hid => hb.stored _ id (h.2 id hid)⟩

end Calls

/-! ### The statements -/

section Statements

variable (toLowerCase : String → String) {t : ℕ} {channelId : String} {m : InboundMessage}
  {db db' : IngestDb}

/-- A row that was appended is seen by its transaction. -/
theorem seen_append_self {α : Type*} (T : TxTable α) (t : ℕ) (v : α) :
    TxTable.seen (T ++ [⟨none, some (t, v)⟩]) t T.length = some v :=
  TxTable.seen_of_own ((TxTable.own_append T t t _ v).trans (if_pos ⟨rfl, rfl⟩))

theorem IngestBeside.refl (t : ℕ) (db : IngestDb) : IngestBeside t db db where
  contacts _ _ := rfl
  conversations _ _ := rfl
  messages _ _ := rfl
  sees _ _ := .of_eq rfl rfl
  looked _ _ := Iff.rfl
  stored _ _ h := h

theorem IngestBeside.acknowledge (acknowledged : List (String × String)) :
    IngestBeside t db { db with acknowledged } where
  contacts _ _ := rfl
  conversations _ _ := rfl
  messages _ _ := rfl
  sees _ _ := .of_eq rfl rfl
  looked _ _ := Iff.rfl
  stored _ _ h := h

/-- A contact that is found has the property; otherwise no contact that is seen has it. -/
theorem IngestDb.findContact_spec (db : IngestDb) (t : ℕ) (p : IngestContact → Bool) :
    match db.findContact t p with
    | some i => ∃ c, db.contacts.seen t i = some c ∧ p c = true
    | none => ∀ i c, db.contacts.seen t i = some c → p c = false := by
  cases h : db.findContact t p with
  | some i =>
    have hi : (db.contacts.seen t i).any p = true :=
      List.find?_some (p := fun i => (db.contacts.seen t i).any p) h
    exact (Option.any_eq_true _ _).1 hi
  | none =>
    intro i c hc
    by_contra hp
    have hmem : i ∈ db.contacts.found t p :=
      TxTable.mem_found.2 ⟨c, hc, eq_true_of_ne_false hp⟩
    exact List.find?_eq_none.1 h i (List.mem_filter.1 hmem).1 (List.mem_filter.1 hmem).2

/-- A conversation that is found is one that messages may join there; otherwise none is seen. -/
theorem IngestDb.findThreadableConversation_spec (db : IngestDb) (t : ℕ) (place : String × ℕ) :
    match db.findThreadableConversation t place with
    | some i => ∃ c, db.conversations.seen t i = some c ∧ c.key = some place
    | none => ∀ i c, db.conversations.seen t i = some c → c.key ≠ some place := by
  have hmem : ∀ i, i ∈ db.conversations.found t (·.key = some place) ↔
      ∃ c, db.conversations.seen t i = some c ∧ c.key = some place := fun i =>
    TxTable.mem_found.trans (by simp only [decide_eq_true_eq])
  cases h : db.findThreadableConversation t place with
  | some i => exact (hmem i).1 (List.mem_mergeSort.1 (List.mem_of_mem_head? h))
  | none =>
    intro i c hc hkey
    have hnil : db.conversations.found t (·.key = some place) = [] :=
      List.nil_perm.1 ((List.head?_eq_none_iff.1 h) ▸ List.mergeSort_perm _ _)
    exact List.not_mem_nil (hnil ▸ (hmem i).2 ⟨c, hc, hkey⟩)

variable {c : IngestConversation} {contact i : ℕ}

variable {place : String × ℕ}

theorem IngestConversation.isOpen_of_key (h : c.key = some place) : c.IsOpen := by
  by_contra hnot
  rw [IngestConversation.key, if_neg hnot] at h
  cases h

/-- What is found open at a place is there, and not closed. -/
theorem IngestConversation.at_of_key
    (h : c.key = some place) : c.place = place ∧ c.status ≠ .closed := by
  have hopen := IngestConversation.isOpen_of_key h
  refine ⟨?_, fun hclosed => ?_⟩
  · rw [IngestConversation.key, if_pos hopen] at h
    exact Option.some.inj h
  · rcases hopen with hopen | hopen <;> cases hopen.symm.trans hclosed

/-- Messages join no conversation for its being marked as spam. -/
theorem IngestConversation.key_of_status {d : IngestConversation} {k : String × ℕ}
    (hplace : d.place = c.place) (hstatus : d.status = .spam ∨ d.status = c.status)
    (hkey : d.key = some k) : c.key = some k := by
  obtain ⟨hk, -⟩ := IngestConversation.at_of_key hkey
  have hopen := IngestConversation.isOpen_of_key hkey
  have hsame : d.status = c.status := hstatus.resolve_left fun hspam => by
    rcases hopen with h | h <;> cases h.symm.trans hspam
  rw [← hk, hplace]
  exact if_pos (hopen.imp hsame.symm.trans hsame.symm.trans)

/-- What a statement leads to. -/
structure Leads (t : ℕ) (channelId : String) (m : InboundMessage) (db db' : IngestDb)
    (next : Option IngestStage) : Prop where
  beside : IngestBeside t db db'
  lawful : db'.Lawful
  next : match next with
    | none => db'.Idle t ∧ db'.Stored channelId m.providerMessageId
    | some stage => stage.At toLowerCase t channelId m db'

variable {toLowerCase} {next : Option IngestStage}

section Leads

variable (h : db.Lawful)

include h

/-- The message is stored already, on the channel; or it is not stored at all. -/
theorem leads_findDuplicate (hidle : db.Idle t) (hquiet : QuietCommit t db)
    (hchannel : ∀ x ∈ db.messages.view t, x.providerMessageId = m.providerMessageId →
      (db.conversations.seen t x.conversation).map (·.channelId) = some channelId)
    (hstmt : ingestStmt toLowerCase t channelId m db .findDuplicate = some (db', next)) :
    Leads toLowerCase t channelId m db db' next := by
  dsimp only [ingestStmt] at hstmt
  split at hstmt <;> cases hstmt
  · rename_i hany
    obtain ⟨x, hx, hid⟩ := List.any_eq_true.1 hany
    rw [decide_eq_true_eq] at hid
    obtain ⟨c, hc, hsame⟩ := Option.map_eq_some_iff.1 (hchannel x hx hid)
    obtain ⟨i, hi⟩ := TxTable.mem_view.1 hx
    rw [TxTable.seen_of_not (hidle.messages i)] at hi
    rw [TxTable.seen_of_not (hidle.conversations _)] at hc
    have hb := IngestBeside.commit (t := t) h
    exact ⟨hb, h.commit hquiet, IngestDb.idle_commit db t,
      hb.stored _ _ ⟨i, x, hi, hid, c, hc, hsame⟩⟩
  · rename_i hany
    refine ⟨.look _, h.look ?_, ⟨⟨hidle.contacts, hidle.conversations, hidle.messages⟩,
      List.mem_cons_self⟩⟩
    rw [IngestDb.shows_iff]
    rintro ⟨i, x, hx, hid⟩
    refine hany (List.any_eq_true.2 ⟨x, TxTable.mem_view.2 ⟨i, ?_⟩, decide_eq_true hid⟩)
    rw [TxTable.seen_of_not (hidle.messages i), hx]

theorem leads_findByEmail (hA : IngestStage.findByEmail.At toLowerCase t channelId m db)
    (hstmt : ingestStmt toLowerCase t channelId m db .findByEmail = some (db', next)) :
    Leads toLowerCase t channelId m db db' next := by
  obtain ⟨hidle, hid⟩ := hA
  dsimp only [ingestStmt] at hstmt
  split at hstmt
  · rename_i hnone
    cases hstmt
    refine ⟨.refl t db, h, hidle, hid, fun e he => ?_⟩
    rw [hnone] at he
    cases he
  · rename_i e hemail
    have hspec := db.findContact_spec t (·.email = some e)
    split at hstmt <;> cases hstmt <;>
      rename_i hfound <;> rw [hfound] at hspec
    · obtain ⟨c, hc, hce⟩ := hspec
      rw [decide_eq_true_eq] at hce
      refine ⟨.refl t db, h, hidle.conversations, hidle.messages, hid, c, hc, fun e' he' => ?_, ?_⟩
      · rw [hce, ← hemail, he']
      · intro hnone
        rw [hnone] at hemail
        cases hemail
    · refine ⟨.look _, h.look ?_, ⟨hidle.contacts, hidle.conversations, hidle.messages⟩,
        List.mem_cons_of_mem _ hid, fun e' he' => ?_⟩
      · rw [IngestDb.shows_iff]
        rintro ⟨i, c, hc, hce⟩
        have := hspec i c (TxTable.seen_of_not (hidle.contacts i) ▸ hc)
        exact of_decide_eq_false this hce
      · obtain rfl := Option.some.inj (hemail.symm.trans he')
        exact List.mem_cons_self

/-- Who is found by phone has no email. -/
theorem leads_findByPhone (hA : IngestStage.findByPhone.At toLowerCase t channelId m db)
    (hok : (m.fromIdentity.sender toLowerCase).email.isSome = true →
      ∀ p ∈ (m.fromIdentity.sender toLowerCase).phone, db.findContact t (·.phone = some p) = none)
    (hstmt : ingestStmt toLowerCase t channelId m db .findByPhone = some (db', next)) :
    Leads toLowerCase t channelId m db db' next := by
  obtain ⟨hidle, hid, hemail⟩ := hA
  dsimp only [ingestStmt] at hstmt
  split at hstmt
  · rename_i hnone
    cases hstmt
    refine ⟨.refl t db, h, hidle, hid, hemail, fun p hp => ?_⟩
    rw [hnone] at hp
    cases hp
  · rename_i p hphone
    have hspec := db.findContact_spec t (·.phone = some p)
    split at hstmt <;> cases hstmt <;>
      rename_i hfound <;> rw [hfound] at hspec
    · obtain ⟨c, hc, hcp⟩ := hspec
      rw [decide_eq_true_eq] at hcp
      refine ⟨.refl t db, h, hidle.conversations, hidle.messages, hid, c, hc, fun e he => ?_, ?_⟩
      · rw [hok (Option.isSome_iff_exists.2 ⟨e, he⟩) p hphone] at hfound
        cases hfound
      · intro _ p' hp'
        rw [hcp, ← hphone, hp']
    · refine ⟨.look _, h.look ?_, ⟨hidle.contacts, hidle.conversations, hidle.messages⟩,
        List.mem_cons_of_mem _ hid, fun e he => List.mem_cons_of_mem _ (hemail e he), ?_⟩
      · rw [IngestDb.shows_iff]
        rintro ⟨i, c, hc, hcp⟩
        have := hspec i c (TxTable.seen_of_not (hidle.contacts i) ▸ hc)
        exact of_decide_eq_false this hcp
      · intro p' hp'
        obtain rfl := Option.some.inj (hphone.symm.trans hp')
        exact List.mem_cons_self

theorem leads_insertContact (hA : IngestStage.insertContact.At toLowerCase t channelId m db)
    (hstmt : ingestStmt toLowerCase t channelId m db .insertContact = some (db', next)) :
    Leads toLowerCase t channelId m db db' next := by
  obtain ⟨hidle, hid, hemail, hphone⟩ := hA
  dsimp only [ingestStmt] at hstmt
  cases hstmt
  exact ⟨.insertContact _, h.insertContact hemail hphone hidle.contacts, hidle.conversations,
    hidle.messages, hid, _, seen_append_self _ t _, fun e he => he, fun _ p hp => hp⟩

theorem leads_findConversation
    (hA : (IngestStage.findConversation contact).At toLowerCase t channelId m db)
    (hstmt : ingestStmt toLowerCase t channelId m db (.findConversation contact) =
      some (db', next)) :
    Leads toLowerCase t channelId m db db' next := by
  obtain ⟨hconversations, hmessages, hid, hnamed⟩ := hA
  dsimp only [ingestStmt] at hstmt
  have hspec := db.findThreadableConversation_spec t (channelId, contact)
  split at hstmt <;> rename_i hfound <;> rw [hfound] at hspec
  · cases hstmt
    refine ⟨.look _, h.look ?_, hconversations, hmessages, List.mem_cons_of_mem _ hid, hnamed,
      List.mem_cons_self⟩
    rw [IngestDb.shows_iff]
    rintro ⟨i, c, hc, hkey⟩
    exact hspec i c (TxTable.seen_of_not (hconversations i) ▸ hc) hkey
  · obtain ⟨c, hc, hkey⟩ := hspec
    have hat := IngestConversation.at_of_key hkey
    split at hstmt <;> cases hstmt
    · exact ⟨.refl t db, h, hmessages, hid, hnamed, c, hc, hat⟩
    · exact ⟨.refl t db, h, hmessages, hid, hnamed, c, hc, hat⟩

theorem leads_reopen (hA : (IngestStage.reopen contact i).At toLowerCase t channelId m db)
    (hstmt : ingestStmt toLowerCase t channelId m db (.reopen contact i) = some (db', next)) :
    Leads toLowerCase t channelId m db db' next := by
  obtain ⟨hmessages, hid, hnamed, hat⟩ := hA
  dsimp only [ingestStmt] at hstmt
  split at hstmt
  · obtain ⟨conversations, hup, heq⟩ := Option.map_eq_some_iff.1 hstmt
    obtain ⟨rfl, rfl⟩ := Prod.mk.inj heq
    have hplace : ∀ c : IngestConversation, { c with status := .opened }.place = c.place :=
      fun _ => rfl
    have hopened : ∀ c : IngestConversation, c.status ≠ .closed →
        { c with status := .opened }.status ≠ .closed := fun _ _ h => by cases h
    have hsees := Sees.update hplace hopened hup t
    refine ⟨.update hup, h.update hplace hopened ?_ ?_ hup, hmessages, hid,
      hnamed.mono hsees, hat.mono hsees⟩
    · intro c k hp hopened hkey
      have hsnoozed : c.status = .snoozed := (of_decide_eq_true hp).resolve_left hopened
      exact (if_pos (.inr hsnoozed)).trans hkey
    · obtain ⟨c, hc, -, hopened⟩ := hat
      intro c' hc'
      obtain rfl := Option.some.inj (hc.symm.trans hc')
      exact hopened
  · cases hstmt
    exact ⟨.refl t db, h, hmessages, hid, hnamed, hat⟩

theorem leads_insertConversation
    (hA : (IngestStage.insertConversation contact).At toLowerCase t channelId m db)
    (hstmt : ingestStmt toLowerCase t channelId m db (.insertConversation contact) =
      some (db', next)) :
    Leads toLowerCase t channelId m db db' next := by
  obtain ⟨hconversations, hmessages, hid, hnamed, hlooked⟩ := hA
  dsimp only [ingestStmt] at hstmt
  cases hstmt
  have hopened : (if db.spamSender t contact then ConversationStatus.spam else .opened) ≠
      .closed := by
    split <;> exact nofun
  refine ⟨.insertConversation _, h.insertConversation (fun k hk => ?_) hopened hconversations,
    hmessages, hid, hnamed, _, seen_append_self _ t _, rfl, hopened⟩
  rw [← (IngestConversation.at_of_key hk).1]
  exact hlooked

theorem leads_insertMessage
    (hA : (IngestStage.insertMessage contact i).At toLowerCase t channelId m db)
    (hstmt : ingestStmt toLowerCase t channelId m db (.insertMessage contact i) =
      some (db', next)) :
    Leads toLowerCase t channelId m db db' next := by
  obtain ⟨hmessages, hid, hnamed, c, hc, hplace, hopened⟩ := hA
  dsimp only [ingestStmt] at hstmt
  cases hstmt
  have hrow : c.contact = contact := congrArg Prod.snd hplace
  refine ⟨.insertMessage _, h.insertMessage hid hmessages ⟨⟨c, hc, hrow⟩, hnamed⟩, ?_, _, c, hc,
    hplace, hopened⟩
  exact ⟨_, _, (TxTable.own_append _ t t _ _).trans (if_pos ⟨rfl, rfl⟩), rfl, c, hc,
    congrArg Prod.fst hplace⟩

theorem leads_updateConversation
    (hA : (IngestStage.updateConversation contact i).At toLowerCase t channelId m db)
    (hstmt : ingestStmt toLowerCase t channelId m db (.updateConversation contact i) =
      some (db', next)) :
    Leads toLowerCase t channelId m db db' next := by
  obtain ⟨hwritten, place, c, hc, hplace, hopened⟩ := hA
  dsimp only [ingestStmt] at hstmt
  obtain ⟨conversations, hup, heq⟩ := Option.map_eq_some_iff.1 hstmt
  obtain ⟨rfl, rfl⟩ := Prod.mk.inj heq
  have hplace : ∀ d : IngestConversation, { d with
      lastMessageAt := some m.receivedAt
      status := if db.spamSender t contact then .spam else d.status }.place = d.place :=
    fun _ => rfl
  have hstatus : ∀ s : ConversationStatus,
      (if db.spamSender t contact then .spam else s) = .spam ∨
        (if db.spamSender t contact then .spam else s) = s := fun s => by
    split
    · exact .inl rfl
    · exact .inr rfl
  have hkept : ∀ d : IngestConversation, d.status ≠ .closed → { d with
      lastMessageAt := some m.receivedAt
      status := if db.spamSender t contact then .spam else d.status }.status ≠ .closed := by
    intro d hd hclosed
    rcases hstatus d.status with hs | hs
    · cases hs.symm.trans hclosed
    · exact hd (hs.symm.trans hclosed)
  refine ⟨.update hup, h.update hplace hkept (fun d k _ _ hkey => ?_) (fun d hd => ?_) hup,
    hwritten.mono rfl (Sees.update hplace hkept hup t)⟩
  · exact IngestConversation.key_of_status (hplace d) (hstatus d.status) hkey
  · obtain rfl := Option.some.inj (hc.symm.trans hd)
    exact hopened

/-- **Each statement leads to what the next one relies on.** -/
theorem ingestStmt_spec {call : IngestCall} {stage : IngestStage}
    (hA : stage.At toLowerCase t call.channelId m db)
    (hok : KeepsOrder toLowerCase t (.ingestOne call m stage) db)
    (hstmt : ingestStmt toLowerCase t call.channelId m db stage = some (db', next)) :
    Leads toLowerCase t call.channelId m db db' next := by
  cases stage with
  | findDuplicate => exact leads_findDuplicate h hA hok.2.1 hok.2.2 hstmt
  | findByEmail => exact leads_findByEmail h hA hstmt
  | findByPhone => exact leads_findByPhone h hA hok.2 hstmt
  | insertContact => exact leads_insertContact h hA hstmt
  | findConversation contact => exact leads_findConversation h hA hstmt
  | reopen contact i => exact leads_reopen h hA hstmt
  | insertConversation contact => exact leads_insertConversation h hA hstmt
  | insertMessage contact i => exact leads_insertMessage h hA hstmt
  | updateConversation contact i => exact leads_updateConversation h hA hstmt
  | commit =>
    dsimp only [ingestStmt] at hstmt
    cases hstmt
    exact ⟨.commit h, h.commit hok.2, IngestDb.idle_commit db t, IngestDb.Written.stored hA⟩

end Leads

end Statements

/-! ### The calls -/

/-- The tables as calls find them: nothing is pending, no two messages have an id, no two contacts
an email or a phone, and no two open conversations a place. -/
structure IngestDb.Started (db : IngestDb) : Prop where
  contacts : ∀ r ∈ db.contacts, r.pending = none
  conversations : ∀ r ∈ db.conversations, r.pending = none
  messages : ∀ r ∈ db.messages, r.pending = none
  looked : db.looked = []
  acknowledged : db.acknowledged = []
  ids : ∀ i j x y, db.messages.com i = some x → db.messages.com j = some y →
    x.providerMessageId = y.providerMessageId → i = j
  emails : ∀ i j c d, db.contacts.com i = some c → db.contacts.com j = some d →
    c.email.isSome = true → c.email = d.email → i = j
  phones : ∀ i j c d, db.contacts.com i = some c → db.contacts.com j = some d →
    c.phone.isSome = true → c.phone = d.phone → i = j
  places : ∀ i j c d, db.conversations.com i = some c → db.conversations.com j = some d →
    c.IsOpen → d.IsOpen → c.place = d.place → i = j
  refers : ∀ i x, db.messages.com i = some x → Refers db.conversations.com db.contacts.com x

section Outline

variable {toLowerCase : String → String} {t : ℕ} {db db' : IngestDb}

theorem IngestDb.Started.idle (h : db.Started) (t : ℕ) : db.Idle t where
  contacts := TxTable.own_eq_none h.contacts t
  conversations := TxTable.own_eq_none h.conversations t
  messages := TxTable.own_eq_none h.messages t

theorem IngestDb.Started.lawful (h : db.Started) : db.Lawful := by
  have hlooked : ∀ u l, (u, l) ∉ db.looked := fun u l hl => by
    rw [h.looked] at hl
    cases hl
  refine
    { ids := .start (fun u => (h.idle u).messages) (fun u k => hlooked u _) ?_
      emails := .start (fun u => (h.idle u).contacts) (fun u k => hlooked u _) ?_
      phones := .start (fun u => (h.idle u).contacts) (fun u k => hlooked u _) ?_
      places := .start (fun u => (h.idle u).conversations) (fun u k => hlooked u _) ?_
      contacts := fun u i v hv => ?_
      messages := fun u i v hv => ?_
      kept := fun u i c old hc => ?_
      opened := fun u i c hc => ?_
      refers := h.refers
      refersOwn := fun u i x hx => ?_
      stored := fun a ha => ?_ }
  · exact fun i j x y k hx hy hkx hky =>
      h.ids i j x y hx hy ((Option.some.inj hkx).trans (Option.some.inj hky).symm)
  · exact fun i j c d k hc hd hkc hkd =>
      h.emails i j c d hc hd (hkc ▸ rfl) (hkc.trans hkd.symm)
  · exact fun i j c d k hc hd hkc hkd =>
      h.phones i j c d hc hd (hkc ▸ rfl) (hkc.trans hkd.symm)
  · exact fun i j c d k hc hd hkc hkd =>
      h.places i j c d hc hd (IngestConversation.isOpen_of_key hkc)
        (IngestConversation.isOpen_of_key hkd)
        ((IngestConversation.at_of_key hkc).1.trans (IngestConversation.at_of_key hkd).1.symm)
  · rw [(h.idle u).contacts] at hv
    cases hv
  · rw [(h.idle u).messages] at hv
    cases hv
  · rw [(h.idle u).conversations] at hc
    cases hc
  · rw [(h.idle u).conversations] at hc
    cases hc
  · rw [(h.idle u).messages] at hx
    cases hx
  · rw [h.acknowledged] at ha
    cases ha

/-- What a session knows: without a call it has written nothing. -/
def IngestKnows (toLowerCase : String → String) (t : ℕ) (p : Option IngestPoint) (db : IngestDb) :
    Prop :=
  match p with
  | none => db.Idle t
  | some p => p.At toLowerCase t db

/-- A step of a call. -/
theorem ingestExec_spec {p : IngestPoint} {q : Option IngestPoint} (h : db.Lawful)
    (hA : p.At toLowerCase t db) (hok : KeepsOrder toLowerCase t p db)
    (hexec : ingestExec toLowerCase t p db = some (db', q)) :
    IngestBeside t db db' ∧ db'.Lawful ∧ IngestKnows toLowerCase t q db' := by
  cases p with
  | between call =>
    obtain ⟨hidle, htaken⟩ := hA
    dsimp only [ingestExec] at hexec
    split at hexec <;> cases hexec
    · refine ⟨.acknowledge _, { h with stored := fun a ha => ?_ },
        ⟨hidle.contacts, hidle.conversations, hidle.messages⟩⟩
      rcases List.mem_append.1 ha with hold | hnew
      · exact h.stored a hold
      · obtain ⟨id, hid, rfl⟩ := List.mem_map.1 hnew
        exact htaken id hid
    · exact ⟨.refl t db, h, hidle, htaken⟩
  | ingestOne call m stage =>
    obtain ⟨hstage, htaken⟩ := hA
    dsimp only [ingestExec] at hexec
    split at hexec
    · cases hexec
      exact ⟨.abort, h.abort, IngestDb.idle_abort db t⟩
    · rename_i hfails
      exact absurd hfails hok.1
    · obtain ⟨⟨db'', next⟩, hstmt, heq⟩ := Option.map_eq_some_iff.1 hexec
      obtain ⟨rfl, rfl⟩ := Prod.mk.inj heq
      have hleads := ingestStmt_spec h hstage hok hstmt
      have hkept : ∀ id ∈ call.taken, db''.Stored call.channelId id := fun id hid =>
        hleads.beside.stored _ id (htaken id hid)
      refine ⟨hleads.beside, hleads.lawful, ?_⟩
      have hnext := hleads.next
      cases next with
      | none =>
        refine ⟨hnext.1, fun id hid => ?_⟩
        rcases List.mem_append.1 hid with hold | hnew
        · exact hkept id hold
        · rw [List.mem_singleton.1 hnew]
          exact hnext.2
      | some stage => exact ⟨hnext, hkept⟩

/-- The proof outline of the calls. -/
theorem ingest_outline : (ingestSessions toLowerCase).Outline IngestDb.Started
    (KeepsOrder toLowerCase) IngestDb.Lawful (IngestKnows toLowerCase) where
  start _ hs := ⟨hs.lawful, hs.idle⟩
  entry t p db hentry _ hidle := by
    cases p with
    | between call =>
      have htaken : call.taken = [] := of_decide_eq_true hentry
      refine ⟨hidle, fun id hid => ?_⟩
      rw [htaken] at hid
      cases hid
    | ingestOne call m stage => cases hentry
  exec t p db db' q h hA hok hexec := (ingestExec_spec h hA hok hexec).2
  stable t p db db' q h hA hok hexec u r hu hr := by
    have hb := (ingestExec_spec h hA hok hexec).1
    cases r with
    | none => exact IngestDb.Idle.beside hr hb hu
    | some p => exact IngestPoint.At.beside hr hb hu

end Outline

/-- **Channel webhooks are ingested exactly once**, in every run whose steps meet the condition. -/
theorem ingested_once (toLowerCase : String → String) {w : Sessions.World IngestDb IngestPoint}
    (h : (ingestSessions toLowerCase).Reaches IngestDb.Started (KeepsOrder toLowerCase) w) :
    w.store.ExactlyOnce :=
  (Sessions.reaches_outline ingest_outline h).1.exactlyOnce

/-! ### Runs on fixed inputs -/

/-- A delivery of one message, sent from a phone. -/
def smsDelivery (id body : String) (fails : Option (ℕ × Bool)) : IngestPoint :=
  .between
    { channelId := "sms"
      rest := [⟨{ providerMessageId := id, fromIdentity := { phone := some "+4790000000" }
                  body := body, receivedAt := 0 }, fails⟩] }

theorem IngestDb.started_empty : IngestDb.Started {} where
  contacts _ hr := by cases hr
  conversations _ hr := by cases hr
  messages _ hr := by cases hr
  looked := rfl
  acknowledged := rfl
  ids i j x y hx := by cases hx
  emails i j x y hx := by cases hx
  phones i j x y hx := by cases hx
  places i j x y hx := by cases hx
  refers i x hx := by cases hx

/-- A message, another one of its sender, and the first one again: they are in one conversation. -/
theorem ingested_once_sample :
    ∃ w, (ingestSessions id).Reaches IngestDb.Started (KeepsOrder id) w ∧
      w.store.ExactlyOnce ∧
      w.store.messages.map (fun r => r.committed.map fun x =>
        (x.providerMessageId, x.conversation)) = [some ("m1", 0), some ("m2", 0)] := by
  obtain ⟨w, hw, hmessages⟩ := Sessions.exists_reaches (ingestSessions id) IngestDb.Started
    (KeepsOrder id) IngestDb.started_empty
    (.call 1 (smsDelivery "m1" "hei" none) :: List.replicate 11 (.exec 1) ++
      .call 2 (smsDelivery "m2" "hallo" none) :: List.replicate 9 (.exec 2) ++
      .call 3 (smsDelivery "m1" "hei" none) :: List.replicate 3 (.exec 3))
    (f := fun w => w.store.messages.map fun r =>
      r.committed.map fun x => (x.providerMessageId, x.conversation))
    (v := [some ("m1", 0), some ("m2", 0)]) (by decide +kernel)
  exact ⟨w, hw, ingested_once id hw, hmessages⟩

/-- The message `m1`, stored for a contact. -/
def smsMessage (contact : ℕ) : IngestMessage where
  providerMessageId := "m1"
  contact := contact
  conversation := contact
  body := "hei"
  sender := { email := none, phone := some "+4790000000" }

/-- Two deliveries of one message at once, and a delivery whose message fails: the message is stored
twice, for two contacts, and the other one never, though the provider takes it for delivered. -/
theorem ingested_twice_or_never :
    (∃ w, (ingestSessions id).Reaches IngestDb.Started (fun _ _ _ => True) w ∧
      w.store.messages.map (fun r => r.committed.map fun x => (x.providerMessageId, x.contact)) =
        [some ("m1", 0), some ("m1", 1)] ∧ ¬ w.store.ExactlyOnce) ∧
    ∃ w, (ingestSessions id).Reaches IngestDb.Started (fun _ _ _ => True) w ∧
      w.store.acknowledged = [("sms", "m1")] ∧ w.store.messages = [] ∧ ¬ w.store.ExactlyOnce := by
  constructor
  · obtain ⟨w, hw, hmessages⟩ := Sessions.exists_reaches (ingestSessions id) IngestDb.Started
      (fun _ _ _ => True) IngestDb.started_empty
      (.call 1 (smsDelivery "m1" "hei" none) :: .call 2 (smsDelivery "m1" "hei" none) ::
        (List.replicate 11 [.exec 1, .exec 2]).flatten)
      (f := fun w => w.store.messages.map (·.committed))
      (v := [some (smsMessage 0), some (smsMessage 1)]) (by decide +kernel)
    have hcom : ∀ i, w.store.messages.com i = (w.store.messages.map (·.committed))[i]?.join := by
      intro i
      rw [List.getElem?_map, TxTable.com]
      cases w.store.messages[i]? <;> rfl
    refine ⟨w, hw, ?_, fun h => ?_⟩
    · have hmap := congrArg (List.map (Option.map fun x => (x.providerMessageId, x.contact)))
        hmessages
      rw [List.map_map] at hmap
      exact hmap
    · have htwice := h.once 0 1 (smsMessage 0) (smsMessage 1) (by rw [hcom, hmessages]; rfl)
        (by rw [hcom, hmessages]; rfl) rfl
      cases htwice
  · obtain ⟨w, hw, hstore⟩ := Sessions.exists_reaches (ingestSessions id) IngestDb.Started
      (fun _ _ _ => True) IngestDb.started_empty
      (.call 1 (smsDelivery "m1" "hei" (some (5, false))) :: List.replicate 8 (.exec 1))
      (f := fun w => (w.store.acknowledged, w.store.messages.length))
      (v := ([("sms", "m1")], 0)) (by decide +kernel)
    obtain ⟨hacknowledged, hlength⟩ := Prod.mk.inj hstore
    have hnil := List.length_eq_zero_iff.1 hlength
    refine ⟨w, hw, hacknowledged, hnil, fun h => ?_⟩
    obtain ⟨i, x, hx, -⟩ := h.stored ("sms", "m1") (by rw [hacknowledged]; exact List.mem_cons_self)
    rw [hnil] at hx
    cases hx

end Munin
