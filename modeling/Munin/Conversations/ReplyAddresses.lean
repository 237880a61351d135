import Munin.Foundations.Utf16Text

/-!
# Reply addresses

The address to reply to names what the reply belongs to: behind the mailbox and a plus stands a
prefix with the id of the conversation, or of the recipient of a broadcast. When a reply comes in,
the id is read off its recipients.

* **`composeReplyTo`**, **`composeBulkReplyTo`** — the two addresses.
* **`extractPlusAddressedKey`** — the id in the first recipient that is such an address.
* **`reply_address_round_trip`** — the id of an address that was composed is read back from any
  writing of the address, whatever stands behind it in the list, unless an address before it has an
  id under the same prefix; under the other prefix the address has none.

Ids are lower case, and the key of an address is what stands behind its last plus, for no id has
one (`matchKey_of_plus`).
-/

namespace Munin.Conversations

open Foundations

/-- `text.toLowerCase()`, of which this much is used: neither the at sign nor the plus joins what
stands around it, the letters of ids are lower case already, and no at sign comes from another
character. -/
structure LowerCase where
  apply : Utf16Text → Utf16Text
  append_at : ∀ a b, apply (a ++ 0x40 :: b) = apply a ++ 0x40 :: apply b
  append_plus : ∀ a b, apply (a ++ 0x2b :: b) = apply a ++ 0x2b :: apply b
  keeps : ∀ t : Utf16Text,
    (∀ u ∈ t, 0x30 ≤ u ∧ u ≤ 0x39 ∨ 0x61 ≤ u ∧ u ≤ 0x7a ∨ u = 0x5f ∨ u = 0x2d) → apply t = t
  no_at : ∀ t : Utf16Text, 0x40 ∉ t → 0x40 ∉ apply t

/-! ### Ids -/

/-- `ALPHABET`. -/
def idAlphabet : Utf16Text :=
  (List.range 10).map (0x30 + ·) ++ (List.range 26).map (0x61 + ·)

def acceptMax : ℕ := 256 - 256 % idAlphabet.length

/-- The loop of `suffix` over a batch of random bytes. -/
def takeBytes : Utf16Text → List (Fin 256) → Utf16Text
  | out, [] => out
  | out, b :: bytes =>
    if 22 ≤ out.length then out
    else if b.val < acceptMax then
      takeBytes (out ++ [idAlphabet.getD (b.val % idAlphabet.length) 0]) bytes
    else takeBytes out bytes

/-- The outer loop of `suffix` over the batches that the generator gives. -/
def suffixFrom : Utf16Text → List (List (Fin 256)) → Option Utf16Text
  | out, [] => if out.length < 22 then none else some out
  | out, bytes :: batches =>
    if out.length < 22 then suffixFrom (takeBytes out bytes) batches else some out

/-- The id that `makeId` generates from some random bytes, if they are enough. -/
def makeId (pre : String) (batches : List (List (Fin 256))) : Option Utf16Text :=
  (suffixFrom [] batches).map fun suffix => utf16 pre ++ 0x5f :: suffix

/-! ### Composing -/

/-- The addresses in a channel's configuration. -/
structure Addressing where
  fromAddress : Utf16Text
  replyToTemplate : Option Utf16Text

def bulkReplyPrefix : String := "bcast-"

def convReplyPrefix : String := "conv-"

def conversationIdSlot : Utf16Text := utf16 "\x7bconversationId\x7d"

/-- `text.replace(word, new)`, for a new text without dollar signs. -/
def replaceWord (text word new : Utf16Text) : Utf16Text :=
  match indexOf word text 0 with
  | none => text
  | some i => replaceAt text i word.length new

/-- The address for a key under a prefix. -/
def plusAddress (addressing : Addressing) (pre : String) (key replyDomain : Utf16Text) :
    Utf16Text :=
  addressing.fromAddress.takeWhile (· ≠ 0x40) ++ 0x2b :: (utf16 pre ++ key) ++ 0x40 :: replyDomain

def composeBulkReplyTo (addressing : Addressing) (replyDomain : Option Utf16Text)
    (replyKey : Utf16Text) : Option Utf16Text :=
  match addressing.replyToTemplate.filter fun t => t ≠ [] ∧ indexOf conversationIdSlot t 0 = none with
  | some template => some template
  | none => (replyDomain.filter (· ≠ [])).map (plusAddress addressing bulkReplyPrefix replyKey)

def composeReplyTo (addressing : Addressing) (replyDomain : Option Utf16Text)
    (conversationId : Utf16Text) : Option Utf16Text :=
  match addressing.replyToTemplate.filter (· ≠ []) with
  | some template => some (replaceWord template conversationIdSlot conversationId)
  | none => (replyDomain.filter (· ≠ [])).map (plusAddress addressing convReplyPrefix conversationId)

/-! ### Extracting -/

/-- Whether an at sign stands within the text, neither first nor last. -/
def hasInnerAt (text : Utf16Text) : Bool := (text.drop 1).dropLast.contains 0x40

/-- The text in the angle brackets that the text begins with, for `/<([^<>]+@[^<>]+)>/`. -/
def angleAt : Utf16Text → Option Utf16Text
  | [] => none
  | u :: rest =>
    let content := rest.takeWhile fun v => v ≠ 0x3c ∧ v ≠ 0x3e
    if u == 0x3c && hasInnerAt content && (rest.drop content.length).head? == some 0x3e then
      some content
    else none

/-- A unit that may stand in a bare address: `[^\s,;<>]`. -/
def isAddressUnit (u : ℕ) : Bool :=
  !isBlankUnit u && u != 0x2c && u != 0x3b && u != 0x3c && u != 0x3e

/-- The bare address that the text begins with, for `/[^\s,;<>]+@[^\s,;<>]+/`. -/
def bareAt (text : Utf16Text) : Option Utf16Text :=
  let run := text.takeWhile isAddressUnit
  if hasInnerAt run then some run else none

/-- The first match of a pattern, from the left. -/
def firstFrom (matchAt : Utf16Text → Option Utf16Text) : Utf16Text → Option Utf16Text
  | [] => none
  | u :: rest => matchAt (u :: rest) <|> firstFrom matchAt rest

def extractEmail (raw : Utf16Text) : Option Utf16Text := firstFrom angleAt raw <|> firstFrom bareAt raw

/-- A unit of a key: `[A-Za-z0-9_-]`. -/
def isKeyUnit (u : ℕ) : Bool :=
  (0x41 ≤ u && u ≤ 0x5a) || (0x61 ≤ u && u ≤ 0x7a) || (0x30 ≤ u && u ≤ 0x39) || u == 0x5f ||
    u == 0x2d

/-- The key behind a prefix that a text begins with and that goes on to its end. -/
def keyBehind (pre text : Utf16Text) : Option Utf16Text :=
  let key := text.drop pre.length
  if pre.isPrefixOf text && key ≠ [] && key.all isKeyUnit then some key else none

/-- The key behind the plus at position `i`. -/
def keyAt (pre mailbox : Utf16Text) (i : ℕ) : Option Utf16Text :=
  if mailbox.getD i 0 = 0x2b then keyBehind pre (mailbox.drop (i + 1)) else none

/-- `local.match(pattern)?.[1]`: the prefix stands at the beginning or behind a plus. -/
def matchKey (pre mailbox : Utf16Text) : Option Utf16Text :=
  keyBehind pre mailbox <|> (List.range mailbox.length).findSome? (keyAt pre mailbox)

/-- `replyDomain.replace(/^@/, '').toLowerCase()`. -/
def replyHost (lower : LowerCase) (replyDomain : Utf16Text) : Utf16Text :=
  lower.apply (if replyDomain.head? = some 0x40 then replyDomain.tail else replyDomain)

/-- One turn of the loop over the recipients. -/
def keyOfRecipient (lower : LowerCase) (host pre raw : Utf16Text) : Option Utf16Text :=
  match (extractEmail raw).map lower.apply with
  | none => none
  | some addr =>
    match indexOf [0x40] addr 0 with
    | none => none
    | some i => if addr.drop (i + 1) ≠ host then none else matchKey pre (addr.take i)

def extractPlusAddressedKey (lower : LowerCase) (addresses : List Utf16Text)
    (replyDomain : Utf16Text) (pre : String) : Option Utf16Text :=
  addresses.findSome? (keyOfRecipient lower (replyHost lower replyDomain) (utf16 pre))

def extractPlusAddressedConvId (lower : LowerCase) (addresses : List Utf16Text)
    (replyDomain : Utf16Text) : Option Utf16Text :=
  extractPlusAddressedKey lower addresses replyDomain convReplyPrefix

/-! ### What ids look like -/

/-- A unit of a generated id. -/
def IsIdUnit (u : ℕ) : Prop := 0x30 ≤ u ∧ u ≤ 0x39 ∨ 0x61 ≤ u ∧ u ≤ 0x7a ∨ u = 0x5f ∨ u = 0x2d

instance (u : ℕ) : Decidable (IsIdUnit u) := inferInstanceAs (Decidable (_ ∨ _ ∨ _ ∨ _))

variable {u : ℕ} {batches : List (List (Fin 256))} {id text pre : Utf16Text}
  {matchAt : Utf16Text → Option Utf16Text}

theorem isKeyUnit_of_isIdUnit (h : IsIdUnit u) : isKeyUnit u = true := by
  unfold IsIdUnit at h
  simp only [isKeyUnit, Bool.or_eq_true, Bool.and_eq_true, decide_eq_true_eq, beq_iff_eq]
  omega

theorem isIdUnit_of_mem_idAlphabet (h : u ∈ idAlphabet) : IsIdUnit u := by
  rw [idAlphabet, List.mem_append, List.mem_map, List.mem_map] at h
  rcases h with ⟨k, hk, rfl⟩ | ⟨k, hk, rfl⟩
  · rw [List.mem_range] at hk
    exact .inl ⟨by omega, by omega⟩
  · rw [List.mem_range] at hk
    exact .inr (.inl ⟨by omega, by omega⟩)

theorem takeBytes_isIdUnit {out : Utf16Text} (hout : ∀ u ∈ out, IsIdUnit u)
    (bytes : List (Fin 256)) : ∀ u ∈ takeBytes out bytes, IsIdUnit u := by
  induction bytes generalizing out with
  | nil => exact hout
  | cons b bytes ih =>
    rw [takeBytes]
    split_ifs
    · exact hout
    · refine ih fun u hu => (List.mem_append.1 hu).elim (hout u) fun hlast => ?_
      have hlt : b.val % idAlphabet.length < idAlphabet.length := Nat.mod_lt _ (by decide)
      rw [List.mem_singleton, List.getD_eq_getElem _ _ hlt] at hlast
      rw [hlast]
      exact isIdUnit_of_mem_idAlphabet (List.getElem_mem _)
    · exact ih hout

theorem suffixFrom_isIdUnit {out suffix : Utf16Text} (hout : ∀ u ∈ out, IsIdUnit u)
    (h : suffixFrom out batches = some suffix) :
    ∀ u ∈ suffix, IsIdUnit u := by
  induction batches generalizing out with
  | nil =>
    rw [suffixFrom] at h
    split_ifs at h
    rw [← Option.some.inj h]
    exact hout
  | cons bytes batches ih =>
    rw [suffixFrom] at h
    split_ifs at h
    · exact ih (takeBytes_isIdUnit hout bytes) h
    · rw [← Option.some.inj h]
      exact hout

/-- A generated id is a word of lower-case letters, digits and underscores, if its prefix is. -/
theorem makeId_isIdUnit {pre : String} (hpre : ∀ u ∈ utf16 pre, IsIdUnit u)
    (h : makeId pre batches = some id) :
    id ≠ [] ∧ ∀ u ∈ id, IsIdUnit u := by
  obtain ⟨suffix, hsuffix, rfl⟩ := Option.map_eq_some_iff.1 h
  have hunits := suffixFrom_isIdUnit (by simp) hsuffix
  refine ⟨by simp, fun u hu => ?_⟩
  rcases List.mem_append.1 hu with hu | hu
  · exact hpre u hu
  · rcases List.mem_cons.1 hu with rfl | hu
    · exact .inr (.inr (.inl rfl))
    · exact hunits u hu

/-! ### Reading an address -/

/-- A word with an at sign within, and otherwise only units that may stand in an address. -/
structure AddressWord (text : Utf16Text) : Prop where
  units : ∀ u ∈ text, isAddressUnit u = true
  innerAt : hasInnerAt text = true

theorem AddressWord.not_mem (h : AddressWord text) (hu : isAddressUnit u = false) : u ∉ text := by
  intro hmem
  rw [h.units u hmem] at hu
  cases hu

theorem AddressWord.ne_nil (h : AddressWord text) : text ≠ [] := by
  rintro rfl
  cases h.innerAt

/-- A search goes on behind what begins no match. -/
theorem firstFrom_append {before : Utf16Text}
    (h : ∀ k < before.length, matchAt ((before ++ text).drop k) = none) :
    firstFrom matchAt (before ++ text) = firstFrom matchAt text := by
  induction before with
  | nil => rfl
  | cons u before ih =>
    have hhead := h 0 (Nat.zero_lt_succ _)
    rw [List.drop_zero] at hhead
    rw [List.cons_append, firstFrom, ← List.cons_append, hhead]
    exact ih fun k hk => h (k + 1) (Nat.succ_lt_succ hk)

theorem firstFrom_eq_none (h : firstFrom matchAt text = none) {k : ℕ} (hk : k < text.length) :
    matchAt (text.drop k) = none := by
  induction text generalizing k with
  | nil => exact absurd hk (Nat.not_lt_zero k)
  | cons u text ih =>
    rw [firstFrom, Option.orElse_eq_orElse, Option.orElse_eq_or, Option.or_eq_none_iff] at h
    obtain ⟨hhead, htail⟩ := h
    cases k with
    | zero => exact hhead
    | succ k => exact ih htail (Nat.lt_of_succ_lt_succ hk)

/-- In angle brackets the word is found. -/
theorem angleAt_bracketed {word : Utf16Text} (h : AddressWord word) (after : Utf16Text) :
    angleAt (0x3c :: (word ++ 0x3e :: after)) = some word := by
  have hcontent : (word ++ 0x3e :: after).takeWhile (fun v => v ≠ 0x3c ∧ v ≠ 0x3e) = word := by
    rw [List.takeWhile_append_of_pos]
    · simp
    · intro u hu
      have hopen : u ≠ 0x3c := fun heq => h.not_mem (by decide) (heq ▸ hu)
      have hclose : u ≠ 0x3e := fun heq => h.not_mem (by decide) (heq ▸ hu)
      exact decide_eq_true ⟨hopen, hclose⟩
  rw [angleAt, hcontent, h.innerAt, List.drop_left]
  rfl

/-- What is before an opening bracket and has no bracketed address has none with the bracket
either: an address does not go past the next bracket. -/
theorem angleAt_append_open (h : angleAt text = none) (rest : Utf16Text)
    (hne : text ≠ []) : angleAt (text ++ 0x3c :: rest) = none := by
  obtain ⟨u, text, rfl⟩ := List.exists_cons_of_ne_nil hne
  rw [angleAt] at h
  rw [List.cons_append, angleAt]
  by_cases hall : ∀ v ∈ text, (decide (v ≠ 0x3c ∧ v ≠ 0x3e)) = true
  · have hcontent : (text ++ 0x3c :: rest).takeWhile (fun v => v ≠ 0x3c ∧ v ≠ 0x3e) = text := by
      rw [List.takeWhile_append_of_pos hall]
      simp
    rw [hcontent, List.drop_left]
    simp
  · -- the content ends before the bracket
    have hlt : (text.takeWhile fun v => v ≠ 0x3c ∧ v ≠ 0x3e).length < text.length := by
      refine Nat.lt_of_le_of_ne (List.takeWhile_prefix _).length_le fun heq => hall ?_
      have hself := (List.takeWhile_prefix (fun v => decide (v ≠ 0x3c ∧ v ≠ 0x3e))
        (l := text)).eq_of_length heq
      exact List.takeWhile_eq_self_iff.1 hself
    have hcontent : (text ++ 0x3c :: rest).takeWhile (fun v => v ≠ 0x3c ∧ v ≠ 0x3e) =
        text.takeWhile fun v => v ≠ 0x3c ∧ v ≠ 0x3e := by
      rw [List.takeWhile_append, if_neg (Nat.ne_of_lt hlt)]
    rw [hcontent, List.drop_append_of_le_length (Nat.le_of_lt hlt), List.head?_append_of_ne_nil]
    · exact h
    · exact List.ne_nil_of_length_pos (by rw [List.length_drop]; omega)

/-- A recipient that a header writes an address as: the bare address, or the address in angle
brackets behind something that has no such address. -/
inductive WrittenAs (addr : Utf16Text) : Utf16Text → Prop
  | bare : WrittenAs addr addr
  | bracketed {name : Utf16Text} (after : Utf16Text) (hname : firstFrom angleAt name = none) :
    WrittenAs addr (name ++ 0x3c :: (addr ++ 0x3e :: after))

/-- The address is read from every writing. -/
theorem extractEmail_writtenAs {addr raw : Utf16Text} (haddr : AddressWord addr)
    (h : WrittenAs addr raw) : extractEmail raw = some addr := by
  cases h with
  | bare =>
    have hangle : firstFrom angleAt addr = none := by
      have hopen := haddr.not_mem (u := 0x3c) (by decide)
      clear haddr
      induction addr with
      | nil => rfl
      | cons u addr ih =>
        rw [List.mem_cons, not_or] at hopen
        rw [firstFrom, ih hopen.2]
        have hu : angleAt (u :: addr) = none := by
          simp [angleAt, Ne.symm hopen.1]
        rw [hu]
        rfl
    obtain ⟨u, rest, hcons⟩ := List.exists_cons_of_ne_nil haddr.ne_nil
    have hbare : bareAt addr = some addr := by
      rw [bareAt, List.takeWhile_eq_self_iff.2 haddr.units]
      simp [haddr.innerAt]
    rw [extractEmail, hangle, hcons, firstFrom, ← hcons, hbare]
    rfl
  | bracketed after hname =>
    rename_i name
    have hsearch : firstFrom angleAt (name ++ 0x3c :: (addr ++ 0x3e :: after)) = some addr := by
      rw [firstFrom_append, firstFrom, angleAt_bracketed haddr after]
      · rfl
      · intro k hk
        rw [List.drop_append_of_le_length (Nat.le_of_lt hk)]
        refine angleAt_append_open (firstFrom_eq_none hname hk) _ ?_
        exact List.ne_nil_of_length_pos (by rw [List.length_drop]; omega)
    rw [extractEmail, hsearch]
    rfl

/-! ### Reading a key -/

/-- A plus is no part of a key, nor of the prefixes. -/
theorem keyBehind_of_plus (hpre : 0x2b ∉ pre) (htext : 0x2b ∈ text) :
    keyBehind pre text = none := by
  unfold keyBehind
  refine if_neg fun h => ?_
  simp only [Bool.and_eq_true, decide_eq_true_eq] at h
  obtain ⟨⟨hstarts, -⟩, hall⟩ := h
  obtain ⟨rest, rfl⟩ := List.isPrefixOf_iff_prefix.1 hstarts
  rw [List.drop_left] at hall
  rcases List.mem_append.1 htext with hmem | hmem
  · exact hpre hmem
  · exact absurd (List.all_eq_true.1 hall _ hmem) (by decide)

theorem keyBehind_self {key : Utf16Text} (hne : key ≠ []) (hkey : ∀ u ∈ key, IsIdUnit u) :
    keyBehind pre (pre ++ key) = some key := by
  have hpre : pre.isPrefixOf (pre ++ key) = true :=
    List.isPrefixOf_iff_prefix.2 (List.prefix_append pre key)
  have hall : key.all isKeyUnit = true :=
    List.all_eq_true.2 fun u hu => isKeyUnit_of_isIdUnit (hkey u hu)
  rw [keyBehind, List.drop_left, hpre, hall]
  simp [hne]

/-- The key of a mailbox with a plus is what stands behind its last plus. -/
theorem matchKey_of_plus {before last : Utf16Text} (hpre : 0x2b ∉ pre) (hlast : 0x2b ∉ last) :
    matchKey pre (before ++ 0x2b :: last) = keyBehind pre last := by
  have hwhole : keyBehind pre (before ++ 0x2b :: last) = none :=
    keyBehind_of_plus hpre (by simp)
  have hlength : (before ++ 0x2b :: last).length = before.length + (last.length + 1) := by
    rw [List.length_append, List.length_cons]
  have hbefore : ∀ i < before.length, keyAt pre (before ++ 0x2b :: last) i = none := by
    intro i hi
    unfold keyAt
    split_ifs
    · rw [List.drop_append_of_le_length hi]
      exact keyBehind_of_plus hpre (by simp)
    · rfl
  have hself : keyAt pre (before ++ 0x2b :: last) before.length = keyBehind pre last := by
    simp [keyAt]
  have hafter : ∀ k < last.length,
      keyAt pre (before ++ 0x2b :: last) (before.length + (k + 1)) = none := by
    intro k hk
    rw [keyAt, List.getD_append_right _ _ _ _ (by omega), Nat.add_sub_cancel_left,
      List.getD_cons_succ, List.getD_eq_getElem _ _ hk]
    refine if_neg fun heq => hlast ?_
    rw [← heq]
    exact List.getElem_mem hk
  rw [matchKey, hwhole, hlength, List.range_add, List.findSome?_append, List.range_succ_eq_map,
    List.map_cons, List.findSome?_cons, Nat.add_zero, hself,
    List.findSome?_eq_none_iff.2 fun i hi => hbefore i (List.mem_range.1 hi)]
  cases keyBehind pre last with
  | some key => rfl
  | none =>
    refine List.findSome?_eq_none_iff.2 fun i hi => ?_
    simp only [List.map_map, List.mem_map, List.mem_range, Function.comp_apply] at hi
    obtain ⟨k, hk, rfl⟩ := hi
    exact hafter k hk

/-- No key is read under another prefix. -/
theorem keyBehind_other {other : Utf16Text} (hne : ¬ other <+: text) :
    keyBehind other text = none := by
  unfold keyBehind
  refine if_neg fun h => hne ?_
  simp only [Bool.and_eq_true, decide_eq_true_eq] at h
  exact List.isPrefixOf_iff_prefix.1 h.1.1

/-! ### The round trip -/

/-- What an address is composed for. -/
inductive ReplyKind where
  | conversation
  | broadcast

/-- The prefix of its ids. -/
def ReplyKind.idPrefix : ReplyKind → String
  | .conversation => "ccv"
  | .broadcast => "obr"

/-- Its prefix in an address. -/
def ReplyKind.replyPrefix : ReplyKind → String
  | .conversation => convReplyPrefix
  | .broadcast => bulkReplyPrefix

/-- The address composed for it. -/
def ReplyKind.compose : ReplyKind → Addressing → Option Utf16Text → Utf16Text → Option Utf16Text
  | .conversation => composeReplyTo
  | .broadcast => composeBulkReplyTo

/-- The other kind. -/
def ReplyKind.other : ReplyKind → ReplyKind
  | .conversation => .broadcast
  | .broadcast => .conversation

variable {addressing : Addressing}

/-- Without a template the address is made of the mailbox and the reply domain. -/
theorem compose_without_template (kind : ReplyKind)
    (htemplate : addressing.replyToTemplate.filter (· ≠ []) = none) {replyDomain : Utf16Text}
    (hdomain : replyDomain ≠ []) (id : Utf16Text) :
    kind.compose addressing (some replyDomain) id =
      some (plusAddress addressing kind.replyPrefix id replyDomain) := by
  have hfilter : (some replyDomain).filter (· ≠ []) = some replyDomain := by
    simp [hdomain]
  cases kind with
  | conversation =>
    simp only [ReplyKind.compose, composeReplyTo, htemplate, hfilter]
    rfl
  | broadcast =>
    have hbulk : addressing.replyToTemplate.filter
        (fun t => t ≠ [] ∧ indexOf conversationIdSlot t 0 = none) = none := by
      rw [Option.filter_eq_none_iff] at htemplate ⊢
      exact fun t ht h => htemplate t ht (decide_eq_true (of_decide_eq_true h).1)
    simp only [ReplyKind.compose, composeBulkReplyTo, hbulk, hfilter]
    rfl

theorem replyPrefix_isIdUnit (kind : ReplyKind) :
    ∀ u ∈ utf16 kind.replyPrefix, IsIdUnit u := by
  cases kind <;> decide

theorem not_mem_of_isIdUnit (h : ∀ u ∈ text, IsIdUnit u) (hu : ¬ IsIdUnit u) : u ∉ text :=
  fun hmem => hu (h u hmem)

/-- The address in lower case. -/
theorem lower_plusAddress (lower : LowerCase) (addressing : Addressing) (kind : ReplyKind)
    (hid : ∀ u ∈ id, IsIdUnit u) (replyDomain : Utf16Text) :
    lower.apply (plusAddress addressing kind.replyPrefix id replyDomain) =
      lower.apply (addressing.fromAddress.takeWhile (· ≠ 0x40)) ++
        0x2b :: (utf16 kind.replyPrefix ++ id) ++ 0x40 :: lower.apply replyDomain := by
  have hkey : lower.apply (utf16 kind.replyPrefix ++ id) = utf16 kind.replyPrefix ++ id :=
    lower.keeps _ fun u hu => (List.mem_append.1 hu).elim (replyPrefix_isIdUnit kind u) (hid u)
  rw [plusAddress, lower.append_at, lower.append_plus, hkey]

/-- What one turn of the loop reads off any writing of the address. -/
theorem keyOfRecipient_plusAddress (lower : LowerCase) (kind : ReplyKind)
    (hid : ∀ u ∈ id, IsIdUnit u) {replyDomain : Utf16Text}
    (hat : replyDomain.head? ≠ some 0x40) {addr raw : Utf16Text} (haddr : AddressWord addr)
    (hcase : lower.apply addr =
      lower.apply (plusAddress addressing kind.replyPrefix id replyDomain))
    (hraw : WrittenAs addr raw) (hpre : 0x2b ∉ pre) :
    keyOfRecipient lower (replyHost lower replyDomain) pre raw =
      keyBehind pre (utf16 kind.replyPrefix ++ id) := by
  have hkey : ∀ u ∈ utf16 kind.replyPrefix ++ id, IsIdUnit u := fun u hu =>
    (List.mem_append.1 hu).elim (replyPrefix_isIdUnit kind u) (hid u)
  set mailbox := lower.apply (addressing.fromAddress.takeWhile (· ≠ 0x40)) ++
    0x2b :: (utf16 kind.replyPrefix ++ id) with hmailbox
  have hlower : lower.apply addr = mailbox ++ 0x40 :: lower.apply replyDomain := by
    rw [hcase, lower_plusAddress lower addressing kind hid]
  have hnoat : 0x40 ∉ mailbox := by
    have hlocal : 0x40 ∉ addressing.fromAddress.takeWhile (· ≠ 0x40) :=
      fun hmem => by simpa using List.mem_takeWhile_imp hmem
    rw [hmailbox, List.mem_append, List.mem_cons, not_or, not_or]
    exact ⟨lower.no_at _ hlocal, by decide, not_mem_of_isIdUnit hkey (by decide)⟩
  have hindex : indexOf [0x40] (mailbox ++ 0x40 :: lower.apply replyDomain) 0 =
      some mailbox.length := indexOf_singleton hnoat _
  have hhost : replyHost lower replyDomain = lower.apply replyDomain := by
    rw [replyHost, if_neg hat]
  unfold keyOfRecipient
  rw [extractEmail_writtenAs haddr hraw, Option.map_some, hlower]
  dsimp only
  rw [hindex]
  dsimp only
  have hdrop : (mailbox ++ 0x40 :: lower.apply replyDomain).drop (mailbox.length + 1) =
      lower.apply replyDomain := by
    rw [← List.drop_drop, List.drop_left]
    rfl
  rw [hdrop, hhost, if_neg (not_not.2 rfl), List.take_left, hmailbox,
    matchKey_of_plus hpre (not_mem_of_isIdUnit hkey (by decide))]

/-- **Reply addresses round trip.** Of a channel without a template, take the address composed for
a generated id, in any letter case, bare or in angle brackets behind a name without such an address.
Among recipients, its id is read back whatever stands behind it, unless a recipient before it has a
key under the same prefix; under the other prefix it has none. -/
theorem reply_address_round_trip (lower : LowerCase) (kind : ReplyKind) {addressing : Addressing}
    (htemplate : addressing.replyToTemplate.filter (· ≠ []) = none)
    {replyDomain : Utf16Text} (hdomain : replyDomain ≠ []) (hat : replyDomain.head? ≠ some 0x40)
    {batches : List (List (Fin 256))} {id : Utf16Text}
    (hid : makeId kind.idPrefix batches = some id) {composed : Utf16Text}
    (hcompose : kind.compose addressing (some replyDomain) id = some composed)
    {addr raw : Utf16Text} (haddr : AddressWord addr)
    (hcase : lower.apply addr = lower.apply composed) (hraw : WrittenAs addr raw)
    (before after : List Utf16Text) :
    extractPlusAddressedKey lower (before ++ raw :: after) replyDomain kind.replyPrefix =
        some ((extractPlusAddressedKey lower before replyDomain kind.replyPrefix).getD id) ∧
      extractPlusAddressedKey lower (before ++ raw :: after) replyDomain kind.other.replyPrefix =
        extractPlusAddressedKey lower (before ++ after) replyDomain kind.other.replyPrefix := by
  obtain ⟨hne, hunits⟩ := makeId_isIdUnit (by cases kind <;> decide) hid
  rw [compose_without_template kind htemplate hdomain, Option.some.injEq] at hcompose
  subst hcompose
  have hread := fun {pre : Utf16Text} (hpre : 0x2b ∉ pre) =>
    keyOfRecipient_plusAddress lower kind hunits hat haddr hcase hraw hpre
  have hplus : ∀ k : ReplyKind, 0x2b ∉ utf16 k.replyPrefix := fun k =>
    not_mem_of_isIdUnit (replyPrefix_isIdUnit k) (by decide)
  have hother : keyBehind (utf16 kind.other.replyPrefix) (utf16 kind.replyPrefix ++ id) = none := by
    refine keyBehind_other fun hprefix => ?_
    cases kind with
    | conversation =>
      exact absurd (List.cons_prefix_cons.1 hprefix).1 (by decide)
    | broadcast =>
      exact absurd (List.cons_prefix_cons.1 hprefix).1 (by decide)
  constructor
  · rw [extractPlusAddressedKey, List.findSome?_append, List.findSome?_cons, hread (hplus kind),
      keyBehind_self hne hunits]
    unfold extractPlusAddressedKey
    cases before.findSome? _ <;> rfl
  · rw [extractPlusAddressedKey, List.findSome?_append, List.findSome?_cons,
      hread (hplus kind.other), hother, extractPlusAddressedKey, List.findSome?_append]

/-! ### Samples -/

theorem asciiLower_of_isIdUnit (h : IsIdUnit u) : asciiLower u = u := by
  unfold IsIdUnit at h
  unfold asciiLower
  split_ifs <;> omega

/-- `toLowerCase` for ASCII texts. -/
def asciiLowerCase : LowerCase where
  apply := List.map asciiLower
  append_at a b := by
    rw [List.map_append, List.map_cons]
    rfl
  append_plus a b := by
    rw [List.map_append, List.map_cons]
    rfl
  keeps t ht := by
    rw [List.map_congr_left fun u hu => asciiLower_of_isIdUnit (ht u hu)]
    exact List.map_id' t
  no_at t ht hmem := by
    obtain ⟨u, hu, heq⟩ := List.mem_map.1 hmem
    unfold asciiLower at heq
    split_ifs at heq
    · omega
    · exact ht (heq ▸ hu)

/-- A channel without a template. -/
def sampleAddressing : Addressing := ⟨utf16 "Support+eu@acme.example", none⟩

/-- The random bytes behind an id. -/
def sampleBytes (b : Fin 256) : List (List (Fin 256)) := [List.replicate 32 b]

/-- An address in other letter case behind a display name. -/
theorem reply_address_round_trip_sample :
    extractPlusAddressedKey asciiLowerCase ([utf16 "ann@acme.example"] ++
        (utf16 "Acme " ++ 0x3c :: (utf16
          "SUPPORT+EU+conv-ccv_0000000000000000000000@Reply.acme.example" ++ 0x3e :: [])) :: [])
      (utf16 "reply.acme.example") "conv-" = some (utf16 "ccv_0000000000000000000000") := by
  have htemplate : sampleAddressing.replyToTemplate.filter (· ≠ []) = none := rfl
  have hid : makeId ReplyKind.conversation.idPrefix (sampleBytes 0) =
      some (utf16 "ccv_0000000000000000000000") := by
    decide +kernel
  have hcompose : ReplyKind.conversation.compose sampleAddressing
      (some (utf16 "reply.acme.example")) (utf16 "ccv_0000000000000000000000") =
        some (utf16 "Support+eu+conv-ccv_0000000000000000000000@reply.acme.example") := by
    decide +kernel
  have haddr : AddressWord
      (utf16 "SUPPORT+EU+conv-ccv_0000000000000000000000@Reply.acme.example") :=
    ⟨by decide +kernel, by decide +kernel⟩
  have hname : firstFrom angleAt (utf16 "Acme ") = none := by decide +kernel
  have h := reply_address_round_trip asciiLowerCase .conversation htemplate (by decide +kernel)
    (by decide +kernel) hid hcompose haddr (by decide +kernel) (.bracketed [] hname)
    [utf16 "ann@acme.example"] []
  exact h.1.trans (by decide +kernel)

/-- Of two reply addresses among the recipients, the key of the second is not read. -/
theorem earlier_reply_address_wins :
    (makeId "ccv" (sampleBytes 0)).isSome = true ∧
      (makeId "ccv" (sampleBytes 1)).isSome = true ∧
      makeId "ccv" (sampleBytes 0) ≠ makeId "ccv" (sampleBytes 1) ∧
      extractPlusAddressedKey asciiLowerCase
        ([makeId "ccv" (sampleBytes 0), makeId "ccv" (sampleBytes 1)].filterMap fun id =>
          id.bind (composeReplyTo sampleAddressing (some (utf16 "reply.acme.example"))))
        (utf16 "reply.acme.example") "conv-" = makeId "ccv" (sampleBytes 0) := by
  decide +kernel

end Munin.Conversations
