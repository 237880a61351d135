import Munin.Conversations.ReplyAddresses

/-!
# Which conversation an email belongs to

A reply is threaded by the plus address among its recipients, or else by the messages it answers:
the ids of its `In-Reply-To` and `References` headers are looked up among the deliveries of the
organisation, and the first row that the database returns decides.

The lookup is one query for all ids and asks for no order, so the result depends on the order in
which the database has the rows. `threads_by_in_reply_to_iff` says when it does not: whatever the
order, the reply gets the conversation of its `In-Reply-To` exactly if no other of its ids is that
of a delivery in another conversation.
-/

namespace Munin.Conversations

open Foundations

/-- What the headers of an inbound email say about where it belongs. -/
structure InboundHeaders where
  recipients : List Utf16Text
  inReplyTo : Option Utf16Text
  references : List Utf16Text

/-- A row of `conv_conversations`. -/
structure ThreadedConversation where
  id : Utf16Text
  orgId : Utf16Text

/-- A row of `conv_messages`. -/
structure ThreadedMessage where
  id : Utf16Text
  conversationId : Utf16Text

/-- A row of `conv_message_deliveries`. -/
structure MessageDelivery where
  orgId : Utf16Text
  messageId : Utf16Text
  messageIdHeader : Option Utf16Text

/-- The tables that are read. -/
structure ThreadingTables where
  conversations : List ThreadedConversation
  messages : List ThreadedMessage
  deliveries : List MessageDelivery

/-- How a conversation was found. -/
inductive ThreadVia where
  | plusAddress
  | inReplyTo
  deriving DecidableEq

/-- A conversation that was found. -/
structure ThreadResolution where
  conversationId : Utf16Text
  via : ThreadVia
  deriving DecidableEq

/-- The conversations of the deliveries whose ids are among the candidates: the join of deliveries
and messages, in the order of the tables. -/
def deliveredConversations (db : ThreadingTables) (orgId : Utf16Text)
    (candidateIds : List Utf16Text) : List Utf16Text :=
  (db.deliveries.filter fun d =>
    d.orgId = orgId ∧ d.messageIdHeader.any candidateIds.contains).flatMap fun d =>
      (db.messages.filter (·.id = d.messageId)).map (·.conversationId)

/-- The ids that the email gives for what it answers. -/
def candidateIds (parsed : InboundHeaders) : List Utf16Text :=
  (parsed.inReplyTo.filter (· ≠ [])).toList ++ parsed.references

/-- The part of `resolveInbound` that reads the plus address. -/
def resolvePlusAddress (lower : LowerCase) (db : ThreadingTables) (orgId : Utf16Text)
    (parsed : InboundHeaders) (replyDomain : Option Utf16Text) : Option ThreadResolution :=
  match (replyDomain.filter (· ≠ [])).bind (extractPlusAddressedConvId lower parsed.recipients) with
  | none => none
  | some convId =>
    (db.conversations.find? fun c => c.id = convId ∧ c.orgId = orgId).map fun c =>
      ⟨c.id, .plusAddress⟩

/-- The conversation of an inbound email, if the database returns the rows of a query in the order
that `arrange` puts them in. -/
def resolveInbound (lower : LowerCase) (arrange : List Utf16Text → List Utf16Text)
    (db : ThreadingTables) (orgId : Utf16Text) (parsed : InboundHeaders)
    (replyDomain : Option Utf16Text) : Option ThreadResolution :=
  match resolvePlusAddress lower db orgId parsed replyDomain with
  | some resolution => some resolution
  | none =>
    if candidateIds parsed = [] then none
    else
      (arrange (deliveredConversations db orgId (candidateIds parsed))).head?.map fun c =>
        ⟨c, .inReplyTo⟩

/-- A delivery of the organisation with this id belongs to the conversation. -/
def DeliveredIn (db : ThreadingTables) (orgId header conversationId : Utf16Text) : Prop :=
  ∃ d ∈ db.deliveries, d.orgId = orgId ∧ d.messageIdHeader = some header ∧
    ∃ m ∈ db.messages, m.id = d.messageId ∧ m.conversationId = conversationId

theorem mem_deliveredConversations {db : ThreadingTables} {orgId c : Utf16Text}
    {ids : List Utf16Text} :
    c ∈ deliveredConversations db orgId ids ↔ ∃ header ∈ ids, DeliveredIn db orgId header c := by
  simp only [deliveredConversations, DeliveredIn, List.mem_flatMap, List.mem_filter,
    decide_eq_true_eq, List.mem_map]
  constructor
  · rintro ⟨d, ⟨hd, horg, hany⟩, m, ⟨hm, hid⟩, hc⟩
    obtain ⟨header, hsome, hheader⟩ := (Option.any_eq_true _ _).1 hany
    exact ⟨header, List.contains_iff_mem.1 hheader, d, hd, horg, hsome, m, hm, hid, hc⟩
  · rintro ⟨header, hheader, d, hd, horg, hsome, m, hm, hid, hc⟩
    refine ⟨d, ⟨hd, horg, ?_⟩, m, ⟨hm, hid⟩, hc⟩
    rw [hsome, Option.any_some]
    exact List.contains_iff_mem.2 hheader

/-- **When replies thread by `In-Reply-To`.** For an email without a plus address that answers a
delivery in a conversation: whatever the order in which the database returns its rows, the email
gets that conversation, exactly if every delivery whose id the email gives is in it. -/
theorem threads_by_in_reply_to_iff (lower : LowerCase) {db : ThreadingTables} {orgId : Utf16Text}
    {parsed : InboundHeaders} {replyDomain : Option Utf16Text}
    (hplus : resolvePlusAddress lower db orgId parsed replyDomain = none) {header : Utf16Text}
    (hreply : parsed.inReplyTo = some header) (hheader : header ≠ []) {c : Utf16Text}
    (hdelivered : DeliveredIn db orgId header c) :
    (∀ arrange : List Utf16Text → List Utf16Text, (∀ rows, (arrange rows).Perm rows) →
        resolveInbound lower arrange db orgId parsed replyDomain = some ⟨c, .inReplyTo⟩) ↔
      ∀ id ∈ header :: parsed.references, ∀ c', DeliveredIn db orgId id c' → c' = c := by
  have hids : candidateIds parsed = header :: parsed.references := by
    have hfilter : (some header).filter (· ≠ []) = some header := by
      rw [Option.filter_some, if_pos (decide_eq_true hheader)]
    rw [candidateIds, hreply, hfilter]
    rfl
  have hresolve : ∀ arrange : List Utf16Text → List Utf16Text,
      resolveInbound lower arrange db orgId parsed replyDomain =
        (arrange (deliveredConversations db orgId (header :: parsed.references))).head?.map
          fun c => ⟨c, .inReplyTo⟩ := by
    intro arrange
    rw [resolveInbound, hplus]
    dsimp only
    rw [hids, if_neg (List.cons_ne_nil _ _)]
  have hmem : c ∈ deliveredConversations db orgId (header :: parsed.references) :=
    mem_deliveredConversations.2 ⟨header, List.mem_cons_self, hdelivered⟩
  constructor
  · intro hall id hid c' hc'
    have hmem' : c' ∈ deliveredConversations db orgId (header :: parsed.references) :=
      mem_deliveredConversations.2 ⟨id, hid, hc'⟩
    -- the database may return the row of this delivery first
    have hfirst := hall (fun rows => if c' ∈ rows then c' :: rows.erase c' else rows) fun rows => by
      split_ifs with hin
      · exact (List.perm_cons_erase hin).symm
      · exact .refl _
    rw [hresolve, if_pos hmem', List.head?_cons, Option.map_some, Option.some.injEq] at hfirst
    exact congrArg ThreadResolution.conversationId hfirst
  · intro hone arrange harrange
    have hne : arrange (deliveredConversations db orgId (header :: parsed.references)) ≠ [] := by
      intro hnil
      have hperm := harrange (deliveredConversations db orgId (header :: parsed.references))
      rw [hnil] at hperm
      rw [List.nil_perm.1 hperm] at hmem
      exact List.not_mem_nil hmem
    obtain ⟨first, rest, hcons⟩ := List.exists_cons_of_ne_nil hne
    have hin : first ∈ deliveredConversations db orgId (header :: parsed.references) :=
      (harrange _).subset (hcons ▸ List.mem_cons_self)
    obtain ⟨id, hid, hdel⟩ := mem_deliveredConversations.1 hin
    rw [hresolve, hcons, List.head?_cons, hone id hid first hdel]
    rfl

/-- Three deliveries of an organisation in two conversations. -/
def twoThreads : ThreadingTables where
  conversations := [⟨utf16 "ccv_1", utf16 "org"⟩, ⟨utf16 "ccv_2", utf16 "org"⟩]
  messages := [⟨utf16 "cvm_1", utf16 "ccv_1"⟩, ⟨utf16 "cvm_2", utf16 "ccv_2"⟩,
    ⟨utf16 "cvm_3", utf16 "ccv_2"⟩]
  deliveries :=
    [⟨utf16 "org", utf16 "cvm_1", some (utf16 "a@x")⟩,
      ⟨utf16 "org", utf16 "cvm_2", some (utf16 "b@x")⟩,
      ⟨utf16 "org", utf16 "cvm_3", some (utf16 "c@x")⟩]

theorem twoThreads_delivered :
    DeliveredIn twoThreads (utf16 "org") (utf16 "b@x") (utf16 "ccv_2") :=
  ⟨⟨utf16 "org", utf16 "cvm_2", some (utf16 "b@x")⟩, by simp [twoThreads], rfl, rfl,
    ⟨utf16 "cvm_2", utf16 "ccv_2"⟩, by simp [twoThreads], rfl, rfl⟩

/-- An email that answers the second delivery and refers to the third, which is in the same
conversation, and to an email that was not delivered from here; the database returns the rows in
reverse order. -/
theorem threads_by_in_reply_to_iff_sample :
    resolveInbound asciiLowerCase List.reverse twoThreads (utf16 "org")
      ⟨[], some (utf16 "b@x"), [utf16 "z@y", utf16 "c@x"]⟩ none =
        some ⟨utf16 "ccv_2", .inReplyTo⟩ := by
  refine (threads_by_in_reply_to_iff asciiLowerCase rfl rfl (by decide +kernel)
    twoThreads_delivered).2 (fun id hid c' hc' => ?_) List.reverse fun rows => List.reverse_perm rows
  have hids : deliveredConversations twoThreads (utf16 "org")
      [utf16 "b@x", utf16 "z@y", utf16 "c@x"] = [utf16 "ccv_2", utf16 "ccv_2"] := by
    decide +kernel
  have hmem := mem_deliveredConversations.2 ⟨id, hid, hc'⟩
  rw [hids] at hmem
  simpa using hmem

/-- An email that answers the second delivery and refers to the first: if the database returns the
rows in the order of the table, it gets the conversation of the first. -/
theorem references_may_win :
    DeliveredIn twoThreads (utf16 "org") (utf16 "b@x") (utf16 "ccv_2") ∧
      resolveInbound asciiLowerCase id twoThreads (utf16 "org")
        ⟨[], some (utf16 "b@x"), [utf16 "a@x", utf16 "b@x"]⟩ none =
          some ⟨utf16 "ccv_1", .inReplyTo⟩ ∧ utf16 "ccv_1" ≠ utf16 "ccv_2" :=
  ⟨twoThreads_delivered, by decide +kernel, by decide +kernel⟩

end Munin.Conversations
