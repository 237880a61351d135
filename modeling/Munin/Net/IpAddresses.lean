import Mathlib.Algebra.Group.Int.Defs
import Munin.Conversations.AuthenticationResults
import Munin.Foundations.HeaderText
import Munin.Foundations.IpText

/-!
# Private addresses

An outbound request must not reach a private address. The classification reads the text of an
address: four bytes, or eight groups that are spread out of one of the many ways to write an IPv6
address.

* **`expandIpv6`**, **`isPrivateIp`** — the reading and the classification.
* **`expandIpv6_render`** — the groups are those of the address, except that a form is not read
  whose gap stands directly before an IPv4 address (`Tight`).
* **`PrivateV4`**, **`PrivateV6`** — the private addresses, by their blocks.
* **`isPrivateIp_depends_on_address`** — two forms of an address are classified alike exactly if the
  address is private, or both are tight or neither is.
-/

namespace Munin.Net

open Foundations Conversations

/-! ### IPv4 -/

/-- The 32-bit integer that `<<` returns. -/
def toInt32 (n : ℤ) : ℤ := Int.bmod n (2 ^ 32)

/-- `Number(part)` for decimal digits. -/
def decimalValue (part : Utf16Text) : ℕ := part.foldl (fun n u => 10 * n + (u - 0x30)) 0

/-- One turn of the loop over the parts. -/
def addOctet (n : ℤ) (part : Utf16Text) : Option ℤ :=
  if part = [] ∨ 3 < part.length ∨ !part.all isDigitUnit then none
  else if 255 < decimalValue part then none
  else some (toInt32 (n * 2 ^ 8) + decimalValue part)

def ipv4ToInt (ip : Utf16Text) : Option ℕ :=
  let parts := ip.splitOn 0x2e
  if parts.length ≠ 4 then none
  else (parts.foldlM addOctet 0).map fun n => (n % 2 ^ 32).toNat

/-- The base of a block and its bits. -/
def parseCidr (cidr : Utf16Text) : Option (ℕ × ℕ) :=
  match cidr.splitOn 0x2f with
  | base :: bitsStr :: _ => (ipv4ToInt base).map fun baseInt => (baseInt, decimalValue bitsStr)
  | _ => none

def inCidr4 (ipInt : ℕ) (cidr : Utf16Text) : Bool :=
  match parseCidr cidr with
  | none => false
  | some (baseInt, bits) =>
    if bits = 0 then true
    else
      let mask := 2 ^ 32 - 2 ^ ((32 - bits) % 32)
      ipInt &&& mask = baseInt &&& mask

def ipv4PrivateCidrs : List Utf16Text :=
  ["0.0.0.0/8", "10.0.0.0/8", "100.64.0.0/10", "127.0.0.0/8", "169.254.0.0/16", "172.16.0.0/12",
    "192.0.0.0/24", "192.0.2.0/24", "192.168.0.0/16", "198.18.0.0/15", "198.51.100.0/24",
    "203.0.113.0/24", "224.0.0.0/4", "240.0.0.0/4", "255.255.255.255/32"].map utf16

/-- The classification of an IPv4 text. -/
def isPrivateIpv4 (ip : Utf16Text) : Bool :=
  match ipv4ToInt ip with
  | none => true
  | some n => ipv4PrivateCidrs.any (inCidr4 n)

/-! ### IPv6 -/

/-- The text up to a zone. -/
def stripZone (s : Utf16Text) : Utf16Text :=
  match indexOf [0x25] s 0 with
  | none => s
  | some zone => s.take zone

/-- A byte of a dotted tail; that `Number` reads other texts as numbers too does not matter for
those that `isIP` accepts. -/
def tailByte (part : Utf16Text) : Option ℕ :=
  if part.all isDigitUnit ∧ decimalValue part ≤ 255 then some (decimalValue part) else none

/-- The two groups of a dotted tail. -/
def tailGroups (tail : Utf16Text) : Option (List ℕ) :=
  match (tail.splitOn 0x2e).map tailByte with
  | [some a, some b, some c, some d] => some [a <<< 8 ||| b, c <<< 8 ||| d]
  | _ => none

/-- The groups of a dotted tail, and what is before it; `none` if the tail is malformed. -/
def splitTail (s : Utf16Text) : Option (List ℕ × Utf16Text) :=
  match lastIndexOf [0x3a] s s.length with
  | none => some ([], s)
  | some lastColon =>
    if 0x2e ∈ s.drop (lastColon + 1) then
      (tailGroups (s.drop (lastColon + 1))).map fun v4Tail => (v4Tail, s.take lastColon)
    else some ([], s)

/-- The groups between the colons of a half. -/
def halfGroups (half : Utf16Text) : List Utf16Text := if half = [] then [] else half.splitOn 0x3a

/-- The groups with the gap filled. -/
def spreadGroups (s : Utf16Text) (want : ℕ) : Option (List Utf16Text) :=
  match splitOn [0x3a, 0x3a] s with
  | [whole] => if (halfGroups whole).length ≠ want then none else some (halfGroups whole)
  | [left, right] =>
    if want < (halfGroups left).length + (halfGroups right).length then none
    else
      some (halfGroups left ++
        List.replicate (want - (halfGroups left).length - (halfGroups right).length) [0x30] ++
          halfGroups right)
  | _ => none

/-- `/^[0-9a-f]{1,4}$/` and `parseInt(g, 16)`. -/
def groupValue (g : Utf16Text) : Option ℕ :=
  if g ≠ [] ∧ g.length ≤ 4 ∧
      g.all fun u => (0x30 ≤ u && u ≤ 0x39) || (0x61 ≤ u && u ≤ 0x66) then
    some (hexValue g)
  else none

def expandIpv6 (ip : Utf16Text) : Option (List ℕ) := do
  let (v4Tail, s) ← splitTail (stripZone (trimUnits (toLowerAscii ip)))
  let groups ← spreadGroups s (8 - v4Tail.length)
  let out := (← groups.mapM groupValue) ++ v4Tail
  if out.length = 8 then some out else none

/-- The address in two groups, in decimal. -/
def embeddedV4 (high low : ℕ) : Utf16Text :=
  octetText ((high >>> 8) &&& 0xff) ++ 0x2e :: octetText (high &&& 0xff) ++
    0x2e :: octetText ((low >>> 8) &&& 0xff) ++ 0x2e :: octetText (low &&& 0xff)

/-- The classification of an IPv6 text, `isPrivate` being that of an embedded address. -/
def isPrivateIpv6 (isPrivate : Utf16Text → Bool) (ip : Utf16Text) : Bool :=
  match expandIpv6 ip with
  | none => true
  | some g =>
    let at' := fun i => g.getD i 0
    if g.all (· = 0) then true
    else if (g.take 7).all (· = 0) ∧ at' 7 = 1 then true
    else if at' 0 &&& 0xfe00 = 0xfc00 then true
    else if at' 0 &&& 0xffc0 = 0xfe80 then true
    else if at' 0 &&& 0xff00 = 0xff00 then true
    else if at' 0 = 0 ∧ at' 1 = 0 ∧ at' 2 = 0 ∧ at' 3 = 0 ∧ at' 4 = 0 ∧ at' 5 = 0xffff then
      isPrivate (embeddedV4 (at' 6) (at' 7))
    else if (g.take 6).all (· = 0) then true
    else if at' 0 = 0x64 ∧ at' 1 = 0xff9b ∧ at' 2 = 0 ∧ at' 3 = 0 ∧ at' 4 = 0 ∧ at' 5 = 0 then
      isPrivate (embeddedV4 (at' 6) (at' 7))
    else if at' 0 = 0x64 ∧ at' 1 = 0xff9b ∧ at' 2 = 1 then true
    else if at' 0 = 0x2002 then isPrivate (embeddedV4 (at' 1) (at' 2))
    else false

/-- The classification with what an IPv6 text is classified by. -/
def isPrivateIpWith (isPrivate6 : Utf16Text → Bool) (ip : Utf16Text) : Bool :=
  match isIp ip with
  | 4 => isPrivateIpv4 ip
  | 6 => isPrivate6 ip
  | _ => true

/-- Whether a text is a private address, or none. An embedded address is an IPv4 text, so that the
calls nest once. -/
def isPrivateIp (ip : Utf16Text) : Bool :=
  isPrivateIpWith (isPrivateIpv6 (isPrivateIpWith fun _ => true)) ip

/-! ### Lower case -/

theorem isHexUnit_asciiLower {u : ℕ} (h : isHexUnit u = true) :
    isHexUnit (asciiLower u) = true ∧ hexDigitValue (asciiLower u) = hexDigitValue u ∧
      (0x30 ≤ asciiLower u ∧ asciiLower u ≤ 0x39 ∨ 0x61 ≤ asciiLower u ∧ asciiLower u ≤ 0x66) := by
  simp only [isHexUnit, Bool.or_eq_true, Bool.and_eq_true, decide_eq_true_eq] at h ⊢
  simp only [asciiLower, hexDigitValue]
  split_ifs <;> omega

/-- A group with its digits in lower case. -/
def lowerGroup (group : HexGroup) : HexGroup where
  units := group.units.map asciiLower
  ne_nil := by simpa using group.ne_nil
  length_le := by simpa using group.length_le
  hex := by
    intro u hu
    obtain ⟨v, hv, rfl⟩ := List.mem_map.1 hu
    exact (isHexUnit_asciiLower (group.hex v hv)).1

theorem hexValue_map_asciiLower {units : Utf16Text} (h : ∀ u ∈ units, isHexUnit u = true) :
    hexValue (units.map asciiLower) = hexValue units := by
  rw [hexValue, hexValue, List.foldl_map]
  exact List.foldl_ext _ _ _ fun n u hu => by rw [(isHexUnit_asciiLower (h u hu)).2.1]

/-- A group in lower case is read as its value. -/
theorem groupValue_lowerGroup (group : HexGroup) :
    groupValue (lowerGroup group).units = some (hexValue (lowerGroup group).units) := by
  rw [groupValue, if_pos]
  · refine ⟨(lowerGroup group).ne_nil, (lowerGroup group).length_le, ?_⟩
    simp only [lowerGroup, List.all_map, List.all_eq_true, Function.comp_apply, Bool.or_eq_true,
      Bool.and_eq_true, decide_eq_true_eq]
    exact fun u hu => (isHexUnit_asciiLower (group.hex u hu)).2.2

theorem map_asciiLower_dotted (x : Ipv4) : x.dotted.map asciiLower = x.dotted := by
  refine List.map_congr_left (fun u hu => ?_) |>.trans (List.map_id _)
  have hunit := dotted_units x u hu
  rw [asciiLower, if_neg (by omega)]
  rfl

theorem map_asciiLower_intercalate (pieces : List Utf16Text) :
    ([0x3a].intercalate pieces).map asciiLower =
      [0x3a].intercalate (pieces.map (List.map asciiLower)) := by
  induction pieces with
  | nil => rfl
  | cons piece rest ih =>
    cases rest with
    | nil => simp
    | cons next rest =>
      rw [List.intercalate_cons_cons, List.map_append, List.map_append, ih]
      simp only [List.map_cons, List.intercalate_cons_cons]
      rfl

theorem map_asciiLower_sideText (groups : List HexGroup) (quad : Option Ipv4) :
    (sideText groups quad).map asciiLower = sideText (groups.map lowerGroup) quad := by
  rw [sideText, sideText, map_asciiLower_intercalate, List.map_append, List.map_map, List.map_map,
    List.map_map]
  congr 2
  exact List.map_congr_left fun x _ => map_asciiLower_dotted x

/-- The form in lower case, without the zone. -/
def bareForm (form : Ipv6Form) : Ipv6Form where
  left := form.left.map lowerGroup
  right := form.right.map (List.map lowerGroup)
  tail := form.tail
  zone := none
  full h := by
    simpa [sideCount] using form.full (Option.map_eq_none_iff.1 h)
  gap groups h := by
    obtain ⟨right, hright, rfl⟩ := Option.map_eq_some_iff.1 h
    simpa [sideCount] using form.gap right hright
  zone_units _ h := nomatch h

theorem bareForm_address (form : Ipv6Form) : (bareForm form).address = form.address := by
  have hvalues : ∀ groups : List HexGroup,
      (groups.map lowerGroup).map (fun group => hexValue group.units) =
        groups.map fun group => hexValue group.units := by
    intro groups
    rw [List.map_map]
    exact List.map_congr_left fun group _ => hexValue_map_asciiLower group.hex
  simp only [Ipv6Form.address, bareForm, hvalues]
  cases form.right with
  | none => rfl
  | some groups => simp only [Option.map_some, hvalues, sideCount, List.length_map]

theorem map_asciiLower_body (form : Ipv6Form) :
    form.body.map asciiLower = (bareForm form).body := by
  cases hright : form.right with
  | none =>
    rw [form.body_of_full hright, Ipv6Form.body_of_full (by simp [bareForm, hright]),
      map_asciiLower_sideText]
    rfl
  | some groups =>
    have hbare : (bareForm form).right = some (groups.map lowerGroup) := by
      simp [bareForm, hright]
    rw [form.body_of_gap hright, Ipv6Form.body_of_gap hbare]
    simp only [List.map_append, map_asciiLower_sideText]
    rfl

/-- No unit of an address is a blank. -/
theorem isBlankUnit_render (form : Ipv6Form) :
    ∀ u ∈ toLowerAscii form.render, isBlankUnit u = false := by
  intro u hu
  obtain ⟨v, hv, rfl⟩ := List.mem_map.1 hu
  have hunit := render_units form v hv
  have hlower : 0x25 ≤ asciiLower v ∧ asciiLower v ≤ 0x7a := by
    rw [asciiLower]
    split_ifs <;> omega
  rw [Bool.eq_false_iff]
  intro hblank
  simp only [isBlankUnit, Bool.or_eq_true, Bool.and_eq_true, decide_eq_true_eq, beq_iff_eq]
    at hblank
  omega

theorem stripZone_render (form : Ipv6Form) :
    stripZone (trimUnits (toLowerAscii form.render)) = (bareForm form).body := by
  have hblank := isBlankUnit_render form
  have hbody : 0x25 ∉ (bareForm form).body := percent_not_mem_body (bareForm form)
  rw [trimUnits_eq_self (fun u hu => hblank u (List.mem_of_mem_head? hu))
    fun u hu => hblank u (List.mem_of_getLast? hu)]
  rw [toLowerAscii, Ipv6Form.render, List.map_append, map_asciiLower_body, stripZone]
  cases hform : form.zone with
  | none =>
    rw [Ipv6Form.zoneText, hform]
    simp only [List.map_nil, List.append_nil]
    cases hzone : indexOf [0x25] (bareForm form).body 0 with
    | none => rfl
    | some i =>
      obtain ⟨-, ⟨rest, hrest⟩, -⟩ := indexOf_eq_some hzone
      refine absurd (List.mem_of_mem_drop (i := i) ?_) hbody
      rw [← hrest]
      exact List.mem_cons_self
  | some units =>
    rw [Ipv6Form.zoneText, hform]
    simp only [List.map_cons]
    rw [show asciiLower 0x25 = 0x25 from rfl, indexOf_singleton hbody]
    exact List.take_left

/-! ### The groups -/

variable {s ip : Utf16Text} {n want : ℕ} {left : List HexGroup} {groups : List Utf16Text} {x : Ipv4}

theorem splitTail_none (h : 0x2e ∉ s) : splitTail s = some ([], s) := by
  rw [splitTail]
  split
  · rfl
  · exact if_neg fun hmem => h (List.mem_of_mem_drop hmem)

theorem decimalValue_octetText (hn : n < 256) : decimalValue (octetText n) = n := by
  rw [octetText]
  split_ifs <;> simp only [decimalValue, List.foldl_cons, List.foldl_nil] <;> omega

theorem octetText_ne_nil (n : ℕ) : octetText n ≠ [] ∧ (octetText n).length ≤ 3 := by
  rw [octetText]
  split_ifs <;> simp

theorem all_isDigitUnit_octetText (hn : n < 256) : (octetText n).all isDigitUnit = true := by
  rw [List.all_eq_true]
  intro u hu
  rw [isDigitUnit, Bool.and_eq_true, decide_eq_true_eq, decide_eq_true_eq]
  exact octetText_units hn u hu

theorem shiftLeft_or {a b : ℕ} (hb : b < 256) : a <<< 8 ||| b = a * 256 + b := by
  rw [← Nat.shiftLeft_add_eq_or_of_lt (i := 8) hb, Nat.shiftLeft_eq]

theorem tailByte_octetText (n : Fin 256) : tailByte (octetText n.val) = some n.val := by
  rw [tailByte, decimalValue_octetText n.isLt, if_pos]
  exact ⟨all_isDigitUnit_octetText n.isLt, Nat.le_of_lt_succ n.isLt⟩

theorem tailGroups_dotted (x : Ipv4) : tailGroups x.dotted = some x.words := by
  rw [tailGroups, splitOn_dotted]
  simp only [Ipv4.octets, List.map_cons, List.map_nil, tailByte_octetText, shiftLeft_or x.b.isLt,
    shiftLeft_or x.d.isLt]
  rfl

theorem splitTail_dotted (head : Utf16Text) (x : Ipv4) :
    splitTail (head ++ 0x3a :: x.dotted) = some (x.words, head) := by
  have hcolon : 0x3a ∉ x.dotted := by
    intro h
    have := dotted_units x _ h
    omega
  have hdot : 0x2e ∈ x.dotted := by
    simp [Ipv4.dotted, Ipv4.octets, List.intercalate_cons_cons]
  have hdrop : (head ++ 0x3a :: x.dotted).drop (head.length + 1) = x.dotted := by
    rw [← List.drop_drop, List.drop_left]
    rfl
  have hlength : head.length ≤ (head ++ 0x3a :: x.dotted).length := by
    rw [List.length_append]
    exact Nat.le_add_right _ _
  rw [splitTail, lastIndexOf_singleton hcolon hlength]
  simp only
  rw [hdrop, if_pos hdot, tailGroups_dotted, List.take_left]
  rfl

/-- The groups of a side. -/
theorem halfGroups_sideText (groups : List HexGroup) :
    halfGroups (sideText groups none) = groups.map HexGroup.units := by
  rw [halfGroups]
  cases groups with
  | nil => rfl
  | cons group groups =>
    have hne : (group :: groups).map HexGroup.units ++
        (none : Option Ipv4).toList.map Ipv4.dotted ≠ [] := by simp
    rw [if_neg (sideText_ne_nil hne), splitOn_sideText hne]
    simp

theorem spreadGroups_full {groups : List HexGroup} (h : groups.length = want) :
    spreadGroups (sideText groups none) want = some (groups.map HexGroup.units) := by
  rw [spreadGroups, splitOn_of_scan_nil
    ((scan_eq_nil_iff (by simp)).2 fun i => not_occursAt_colons)]
  simp only [halfGroups_sideText, List.length_map]
  rw [if_neg (not_not.2 h)]

theorem spreadGroups_gap {right : List HexGroup} (h : left.length + right.length ≤ want) :
    spreadGroups (sideText left none ++ ([0x3a, 0x3a] ++ sideText right none)) want =
      some (left.map HexGroup.units ++
        List.replicate (want - left.length - right.length) [0x30] ++
          right.map HexGroup.units) := by
  have hsplit : splitOn [0x3a, 0x3a] (sideText left none ++ ([0x3a, 0x3a] ++ sideText right none)) =
      [sideText left none, sideText right none] := by
    rw [splitOn, scan_eq_singleton (by simp) fun j => occursAt_colons_iff]
    simp only [piecesBetween, List.drop_zero, Nat.sub_zero, List.take_left]
    rw [← List.drop_drop, List.drop_left]
    rfl
  rw [spreadGroups, hsplit]
  simp only [halfGroups_sideText, List.length_map]
  rw [if_neg (by omega)]

/-- A gap directly before a dotted tail leaves a single colon, and so an empty group. -/
theorem nil_mem_of_spreadGroups
    (h : spreadGroups (sideText left none ++ [0x3a]) want = some groups) : [] ∈ groups := by
  have hnever : ∀ j, ¬ OccursAt [0x3a, 0x3a] (sideText left none ++ [0x3a]) j := by
    rintro j ⟨rest, hrest⟩
    have hlength := congrArg List.length hrest
    rw [List.length_append, List.length_drop, List.length_append] at hlength
    simp only [List.length_cons, List.length_nil] at hlength
    exact not_occursAt_side (by omega) ⟨rest, hrest⟩
  rw [spreadGroups, splitOn_of_scan_nil ((scan_eq_nil_iff (by simp)).2 hnever)] at h
  simp only at h
  split_ifs at h
  obtain rfl := Option.some.inj h
  rw [halfGroups, if_neg (by simp), List.splitOn_append_cons_self]
  exact List.mem_append_right _ (by simp)

theorem mapM_groupValue (h : ∀ g ∈ groups, groupValue g = some (hexValue g)) :
    groups.mapM groupValue = some (groups.map hexValue) := by
  induction groups with
  | nil => rfl
  | cons g groups ih =>
    rw [List.mapM_cons, h g List.mem_cons_self, ih fun g' hg' => h g' (List.mem_cons_of_mem _ hg')]
    rfl

theorem mapM_groupValue_eq_none (h : [] ∈ groups) : groups.mapM groupValue = none := by
  induction groups with
  | nil => cases h
  | cons g groups ih =>
    rw [List.mapM_cons]
    rcases List.mem_cons.1 h with rfl | h
    · rfl
    · rw [ih h]
      cases groupValue g <;> rfl

/-- The reading of the groups before a tail. -/
theorem expandIpv6_eq {v4Tail : List ℕ}
    (h : splitTail (stripZone (trimUnits (toLowerAscii ip))) = some (v4Tail, s)) :
    expandIpv6 ip = (spreadGroups s (8 - v4Tail.length)).bind fun groups =>
      (groups.mapM groupValue).bind fun out =>
        if (out ++ v4Tail).length = 8 then some (out ++ v4Tail) else none := by
  rw [expandIpv6, h]
  rfl

/-- The gap of a form stands directly before its IPv4 address. -/
def Tight (form : Ipv6Form) : Prop := form.right = some [] ∧ form.tail.isSome = true

instance (form : Ipv6Form) : Decidable (Tight form) :=
  decidable_of_iff ((form.right.map List.length = some 0) ∧ form.tail.isSome = true) (by
    simp [Tight])

/-- What is read of groups in lower case before a tail. -/
theorem expandIpv6_of_spread {v4Tail values : List ℕ}
    (hsplit : splitTail (stripZone (trimUnits (toLowerAscii ip))) = some (v4Tail, s))
    (hspread : spreadGroups s (8 - v4Tail.length) = some groups)
    (hgroups : ∀ g ∈ groups, groupValue g = some (hexValue g))
    (hvalues : groups.map hexValue ++ v4Tail = values) (hlength : values.length = 8) :
    expandIpv6 ip = some values := by
  rw [expandIpv6_eq hsplit, hspread, Option.bind_some, mapM_groupValue hgroups, Option.bind_some,
    hvalues, if_pos hlength]

theorem groupValue_of_mem {right : List HexGroup} {filled : ℕ} :
    ∀ g ∈ (left.map lowerGroup).map HexGroup.units ++ List.replicate filled [0x30] ++
      (right.map lowerGroup).map HexGroup.units, groupValue g = some (hexValue g) := by
  have hlower : ∀ groups : List HexGroup, ∀ g ∈ (groups.map lowerGroup).map HexGroup.units,
      groupValue g = some (hexValue g) := by
    intro groups g hg
    obtain ⟨_, hgroup, rfl⟩ := List.mem_map.1 hg
    obtain ⟨group, -, rfl⟩ := List.mem_map.1 hgroup
    exact groupValue_lowerGroup group
  intro g hg
  rcases List.mem_append.1 hg with hg | hright
  · rcases List.mem_append.1 hg with hleft | hzero
    · exact hlower left g hleft
    · rw [List.eq_of_mem_replicate hzero]
      rfl
  · exact hlower right g hright

theorem map_hexValue_spread (left right : List HexGroup) (filled : ℕ) :
    (left.map HexGroup.units ++ List.replicate filled [0x30] ++
      right.map HexGroup.units).map hexValue =
        left.map (fun group => hexValue group.units) ++ List.replicate filled 0 ++
          right.map fun group => hexValue group.units := by
  have hzero : hexValue [0x30] = 0 := rfl
  simp [Function.comp_def, hzero]

/-- An address has eight groups. -/
theorem address_length (form : Ipv6Form) : form.address.length = 8 := by
  have htail : (form.tail.toList.flatMap Ipv4.words).length = 2 * form.tail.toList.length := by
    cases form.tail <;> rfl
  rw [Ipv6Form.address]
  cases hright : form.right with
  | none =>
    have hfull := form.full hright
    rw [sideCount] at hfull
    simp only [List.length_append, List.length_map, htail]
    exact hfull
  | some groups =>
    have hgap := form.gap groups hright
    simp only [List.length_append, List.length_map, List.length_replicate, htail, sideCount]
      at hgap ⊢
    omega

/-- **The groups of a form are those of its address**, unless the form is tight. -/
theorem expandIpv6_render (form : Ipv6Form) :
    expandIpv6 form.render = if Tight form then none else some form.address := by
  have hstrip := stripZone_render form
  have hlength := address_length (bareForm form)
  have htail : (bareForm form).tail = form.tail := rfl
  have hleft : (bareForm form).left = form.left.map lowerGroup := rfl
  rw [← bareForm_address]
  rcases hright : form.right with _ | groups
  -- Without `::` all groups are written; behind it the gap is filled up.
  · have hbare : (bareForm form).right = none := by simp [bareForm, hright]
    have hfull := (bareForm form).full hbare
    have haddress := Ipv6Form.address_of_full hbare
    have hgroups := @groupValue_of_mem form.left [] 0
    have htight : ¬ Tight form := by
      intro h
      rw [Tight, hright] at h
      cases h.1
    simp only [List.replicate_zero, List.map_nil, List.append_nil] at hgroups
    rw [Ipv6Form.body_of_full hbare] at hstrip
    rw [if_neg htight]
    rcases hquad : form.tail with _ | x
    · rw [htail.trans hquad] at hstrip hfull haddress
      have height : (bareForm form).left.length = 8 := by
        simpa [sideCount] using hfull
      refine expandIpv6_of_spread (by rw [hstrip]; exact splitTail_none (dot_not_mem_sideText _))
        (spreadGroups_full height) hgroups ?_ hlength
      rw [haddress, List.map_map]
      rfl
    · rw [htail.trans hquad] at hstrip hfull haddress
      have hsix : (bareForm form).left.length = 6 := by
        simpa [sideCount] using hfull
      rw [sideText_some (List.ne_nil_of_length_eq_add_one hsix)] at hstrip
      refine expandIpv6_of_spread (by rw [hstrip]; exact splitTail_dotted _ x)
        (spreadGroups_full hsix) hgroups ?_ hlength
      rw [haddress, List.map_map]
      simp only [Option.toList_some, List.flatMap_cons, List.flatMap_nil, List.append_nil]
      rfl
  · have hbare : (bareForm form).right = some (groups.map lowerGroup) := by
      simp [bareForm, hright]
    have hgap := (bareForm form).gap _ hbare
    have haddress := Ipv6Form.address_of_gap hbare
    rw [Ipv6Form.body_of_gap hbare, hleft] at hstrip
    rw [hleft] at hgap haddress
    rcases hquad : form.tail with _ | x
    · rw [htail.trans hquad] at hstrip hgap haddress
      have htight : ¬ Tight form := by
        intro h
        rw [Tight, hquad] at h
        cases h.2
      have hdot : 0x2e ∉ sideText (form.left.map lowerGroup) none ++
          ([0x3a, 0x3a] ++ sideText (groups.map lowerGroup) none) := by
        simp [dot_not_mem_sideText]
      simp only [sideCount, Option.toList_none, List.length_nil, Nat.mul_zero, Nat.add_zero]
        at hgap haddress
      rw [if_neg htight]
      refine expandIpv6_of_spread (by rw [hstrip]; exact splitTail_none hdot)
        (spreadGroups_gap (Nat.le_succ_of_le hgap)) groupValue_of_mem ?_ hlength
      rw [map_hexValue_spread, haddress, List.length_nil, Nat.sub_zero, Nat.sub_sub]
      rfl
    · rw [htail.trans hquad] at hstrip hgap haddress
      rcases groups with _ | ⟨group, groups⟩
      -- Before a dotted tail, `::` leaves an empty group, which is refused.
      · rw [if_pos ⟨hright, by rw [hquad]; rfl⟩]
        have htext : sideText (form.left.map lowerGroup) none ++
            ([0x3a, 0x3a] ++ sideText ([].map lowerGroup) (some x)) =
              (sideText (form.left.map lowerGroup) none ++ [0x3a]) ++ 0x3a :: x.dotted := by
          simp [sideText]
        rw [expandIpv6_eq (by rw [hstrip, htext]; exact splitTail_dotted _ x)]
        cases hspread : spreadGroups (sideText (form.left.map lowerGroup) none ++ [0x3a])
            (8 - x.words.length) with
        | none => rfl
        | some groups =>
          rw [Option.bind_some, mapM_groupValue_eq_none (nil_mem_of_spreadGroups hspread)]
          rfl
      · have htight : ¬ Tight form := by
          intro h
          rw [Tight, hright] at h
          cases h.1
        have htext : sideText (form.left.map lowerGroup) none ++
            ([0x3a, 0x3a] ++ sideText ((group :: groups).map lowerGroup) (some x)) =
              (sideText (form.left.map lowerGroup) none ++
                ([0x3a, 0x3a] ++ sideText ((group :: groups).map lowerGroup) none)) ++
                  0x3a :: x.dotted := by
          rw [sideText_some (by simp)]
          simp
        simp only [sideCount, Option.toList_some, List.length_singleton] at hgap haddress
        rw [if_neg htight]
        refine expandIpv6_of_spread (by rw [hstrip, htext]; exact splitTail_dotted _ x)
          (spreadGroups_gap ?_) groupValue_of_mem ?_ hlength
        · rw [Ipv4.words, List.length_cons, List.length_singleton]
          omega
        · have hfilled : 8 - x.words.length - (form.left.map lowerGroup).length -
              ((group :: groups).map lowerGroup).length =
                8 - ((form.left.map lowerGroup).length +
                  (((group :: groups).map lowerGroup).length + 2 * 1)) := by
            rw [Ipv4.words, List.length_cons, List.length_singleton]
            omega
          rw [map_hexValue_spread, haddress, hfilled]
          simp

/-! ### Blocks -/

/-- The listed blocks of IPv4 addresses, by base and bits. -/
def privateBlocks : List (Ipv4 × ℕ) :=
  [(⟨0, 0, 0, 0⟩, 8), (⟨10, 0, 0, 0⟩, 8), (⟨100, 64, 0, 0⟩, 10), (⟨127, 0, 0, 0⟩, 8),
    (⟨169, 254, 0, 0⟩, 16), (⟨172, 16, 0, 0⟩, 12), (⟨192, 0, 0, 0⟩, 24), (⟨192, 0, 2, 0⟩, 24),
    (⟨192, 168, 0, 0⟩, 16), (⟨198, 18, 0, 0⟩, 15), (⟨198, 51, 100, 0⟩, 24), (⟨203, 0, 113, 0⟩, 24),
    (⟨224, 0, 0, 0⟩, 4), (⟨240, 0, 0, 0⟩, 4), (⟨255, 255, 255, 255⟩, 32)]

/-- An address has the first bits of a block. -/
def InBlock (x : Ipv4) (block : Ipv4 × ℕ) : Prop :=
  x.value / 2 ^ (32 - block.2) = block.1.value / 2 ^ (32 - block.2)

instance (x : Ipv4) (block : Ipv4 × ℕ) : Decidable (InBlock x block) :=
  inferInstanceAs (Decidable (_ = _))

/-- The private IPv4 addresses. -/
def PrivateV4 (x : Ipv4) : Prop := ∃ block ∈ privateBlocks, InBlock x block

instance (x : Ipv4) : Decidable (PrivateV4 x) :=
  inferInstanceAs (Decidable (∃ block ∈ privateBlocks, InBlock x block))

theorem toInt32_emod (n : ℤ) : toInt32 n % 2 ^ 32 = n % 2 ^ 32 := by
  simp only [toInt32, Int.bmod]
  split_ifs <;> omega

theorem addOctet_octetText (n : ℤ) (k : Fin 256) :
    addOctet n (octetText k.val) = some (toInt32 (n * 2 ^ 8) + k.val) := by
  obtain ⟨hne, hlength⟩ := octetText_ne_nil k.val
  have hk := k.isLt
  rw [addOctet, if_neg, decimalValue_octetText hk, if_neg (by omega)]
  rw [all_isDigitUnit_octetText hk, not_or, not_or]
  exact ⟨hne, by omega, by decide⟩

/-- Up to multiples of 2 ^ 32, a turn is a place value more. -/
theorem addOctet_emod {n m : ℤ} (h : n % 2 ^ 32 = m % 2 ^ 32) (k : ℤ) :
    (toInt32 (n * 2 ^ 8) + k) % 2 ^ 32 = (m * 256 + k) % 2 ^ 32 := by
  have := toInt32_emod (n * 2 ^ 8)
  omega

theorem ipv4ToInt_dotted (x : Ipv4) : ipv4ToInt x.dotted = some x.value := by
  have ha := addOctet_emod (Eq.refl ((0 : ℤ) % 2 ^ 32)) x.a.val
  have hd := addOctet_emod (addOctet_emod (addOctet_emod ha x.b.val) x.c.val) x.d.val
  have hlength : (x.octets.map fun n => octetText n.val).length = 4 := rfl
  rw [ipv4ToInt, splitOn_dotted, if_neg (not_not.2 hlength)]
  simp only [Ipv4.octets, List.map_cons, List.map_nil, List.foldlM_cons, List.foldlM_nil,
    addOctet_octetText, Option.bind_eq_bind, Option.bind_some, Option.pure_def, Option.map_some]
  rw [hd, Ipv4.value]
  have := x.a.isLt
  have := x.b.isLt
  have := x.c.isLt
  have := x.d.isLt
  refine congrArg some ?_
  omega

/-- The bits from `k` on. -/
theorem and_mask {w k : ℕ} (hn : n < 2 ^ w) (hk : k ≤ w) :
    n &&& (2 ^ w - 2 ^ k) = n / 2 ^ k * 2 ^ k := by
  have hmask : 2 ^ w - 2 ^ k = (2 ^ (w - k) - 1) * 2 ^ k := by
    rw [Nat.sub_mul, Nat.one_mul, ← Nat.pow_add, Nat.sub_add_cancel hk]
  refine Nat.eq_of_testBit_eq fun i => ?_
  rw [hmask, Nat.testBit_and, Nat.testBit_mul_two_pow, Nat.testBit_mul_two_pow,
    Nat.testBit_div_two_pow, Nat.testBit_two_pow_sub_one]
  by_cases hi : k ≤ i
  · rw [Nat.sub_add_cancel hi]
    by_cases hw : i < w
    · simp [hi, show i - k < w - k by omega]
    · rw [Nat.testBit_lt_two_pow (hn.trans_le (Nat.pow_le_pow_right (by omega) (by omega)))]
      simp
  · simp [hi]

theorem parseCidr_blocks : ipv4PrivateCidrs.map parseCidr =
    privateBlocks.map fun block => some (block.1.value, block.2) := by
  decide +kernel

theorem value_lt (x : Ipv4) : x.value < 2 ^ 32 := by
  have := x.a.isLt
  have := x.b.isLt
  have := x.c.isLt
  have := x.d.isLt
  rw [Ipv4.value]
  omega

theorem inCidr4_iff {cidr : Utf16Text} {block : Ipv4 × ℕ} (x : Ipv4)
    (h : parseCidr cidr = some (block.1.value, block.2)) (hbits : 0 < block.2 ∧ block.2 ≤ 32) :
    inCidr4 x.value cidr = true ↔ InBlock x block := by
  have hmod : (32 - block.2) % 32 = 32 - block.2 := Nat.mod_eq_of_lt (by omega)
  rw [inCidr4, h]
  simp only
  rw [if_neg (by omega), decide_eq_true_eq, hmod, and_mask (value_lt x) (by omega),
    and_mask (value_lt block.1) (by omega), InBlock]
  exact Nat.mul_left_inj (Nat.pos_iff_ne_zero.1 (Nat.two_pow_pos _))

/-- **An IPv4 address is private exactly if it is in a listed block**. -/
theorem isPrivateIpv4_dotted (x : Ipv4) : isPrivateIpv4 x.dotted = true ↔ PrivateV4 x := by
  have hbits : ∀ block ∈ privateBlocks, 0 < block.2 ∧ block.2 ≤ 32 := by decide
  rw [isPrivateIpv4, ipv4ToInt_dotted]
  simp only [List.any_eq_true]
  constructor
  · rintro ⟨cidr, hcidr, hin⟩
    have hmem := List.mem_map_of_mem (f := parseCidr) hcidr
    rw [parseCidr_blocks] at hmem
    obtain ⟨block, hblock, hparse⟩ := List.mem_map.1 hmem
    exact ⟨block, hblock, (inCidr4_iff x hparse.symm (hbits block hblock)).1 hin⟩
  · rintro ⟨block, hblock, hin⟩
    have hmem := List.mem_map_of_mem (f := fun block : Ipv4 × ℕ => some (block.1.value, block.2))
      hblock
    rw [← parseCidr_blocks] at hmem
    obtain ⟨cidr, hcidr, hparse⟩ := List.mem_map.1 hmem
    exact ⟨cidr, hcidr, (inCidr4_iff x hparse (hbits block hblock)).2 hin⟩

/-! ### Private addresses -/

/-- An IPv6 address stands for an IPv4 address: it is mapped, translated or of a 6to4 network. -/
def Embeds (g : List ℕ) (x : Ipv4) : Prop :=
  g = [0, 0, 0, 0, 0, 0xffff] ++ x.words ∨ g = [0x64, 0xff9b, 0, 0, 0, 0] ++ x.words ∨
    ∃ rest, g = 0x2002 :: (x.words ++ rest)

/-- The private IPv6 addresses: `::/96`, `fc00::/7`, `fe80::/10`, `ff00::/8`, `64:ff9b:1::/48`, and
those that stand for a private IPv4 address. -/
def PrivateV6 (g : List ℕ) : Prop :=
  [0, 0, 0, 0, 0, 0] <+: g ∨ g.headD 0 / 2 ^ 9 = 0xfc00 / 2 ^ 9 ∨
    g.headD 0 / 2 ^ 6 = 0xfe80 / 2 ^ 6 ∨ g.headD 0 / 2 ^ 8 = 0xff00 / 2 ^ 8 ∨
      [0x64, 0xff9b, 1] <+: g ∨ ∃ x, Embeds g x ∧ PrivateV4 x

/-- A form or a dotted text: the texts of IP addresses. -/
inductive IpText where
  | v4 (x : Ipv4)
  | v6 (form : Ipv6Form)

inductive Address where
  | v4 (x : Ipv4)
  | v6 (g : List ℕ)

namespace IpText

def text : IpText → Utf16Text
  | v4 x => x.dotted
  | v6 form => form.render

def address : IpText → Address
  | v4 x => .v4 x
  | v6 form => .v6 form.address

def IsTight : IpText → Prop
  | v4 _ => False
  | v6 form => Tight form

end IpText

def PrivateAddress : Address → Prop
  | .v4 x => PrivateV4 x
  | .v6 g => PrivateV6 g

theorem hexDigitValue_lt {u : ℕ} (h : isHexUnit u = true) : hexDigitValue u < 16 := by
  simp only [isHexUnit, Bool.or_eq_true, Bool.and_eq_true, decide_eq_true_eq] at h
  rw [hexDigitValue]
  split_ifs <;> omega

theorem hexValue_lt (group : HexGroup) : hexValue group.units < 2 ^ 16 := by
  have hfold : ∀ (units : Utf16Text), (∀ u ∈ units, isHexUnit u = true) → ∀ n,
      units.foldl (fun n u => 16 * n + hexDigitValue u) n < (n + 1) * 16 ^ units.length := by
    intro units
    induction units with
    | nil =>
      intro _ n
      simp
    | cons u units ih =>
      intro hunits n
      have hu := hexDigitValue_lt (hunits u List.mem_cons_self)
      refine (ih (fun v hv => hunits v (List.mem_cons_of_mem _ hv)) _).trans_le ?_
      rw [List.length_cons, Nat.pow_succ', ← Nat.mul_assoc]
      have hplace : 16 * n + hexDigitValue u + 1 ≤ (n + 1) * 16 := by omega
      exact Nat.mul_le_mul_right _ hplace
  have hlt := hfold group.units group.hex 0
  rw [Nat.zero_add, Nat.one_mul] at hlt
  exact hlt.trans_le (Nat.pow_le_pow_right (by decide) group.length_le)

/-- Each group of an address has 16 bits. -/
theorem address_lt (form : Ipv6Form) : ∀ v ∈ form.address, v < 2 ^ 16 := by
  have hgroups : ∀ groups : List HexGroup,
      ∀ v ∈ groups.map (fun group => hexValue group.units), v < 2 ^ 16 := by
    intro groups v hv
    obtain ⟨group, -, rfl⟩ := List.mem_map.1 hv
    exact hexValue_lt group
  have htail : ∀ v ∈ form.tail.toList.flatMap Ipv4.words, v < 2 ^ 16 := by
    intro v hv
    obtain ⟨x, -, hx⟩ := List.mem_flatMap.1 hv
    have := x.a.isLt
    have := x.b.isLt
    have := x.c.isLt
    have := x.d.isLt
    simp only [Ipv4.words, List.mem_cons, List.not_mem_nil, or_false] at hx
    omega
  intro v hv
  rcases hright : form.right with _ | groups
  · rw [Ipv6Form.address_of_full hright, List.mem_append] at hv
    exact hv.elim (hgroups _ v) (htail v)
  · rw [Ipv6Form.address_of_gap hright, List.mem_append, List.mem_append, List.mem_append] at hv
    rcases hv with ((hleft | hzero) | hright) | hquad
    · exact hgroups _ v hleft
    · rw [List.eq_of_mem_replicate hzero]
      exact Nat.two_pow_pos 16
    · exact hgroups _ v hright
    · exact htail v hquad

/-- Two groups as four bytes. -/
theorem exists_words {high low : ℕ} (hhigh : high < 2 ^ 16) (hlow : low < 2 ^ 16) :
    ∃ x : Ipv4, x.words = [high, low] ∧ embeddedV4 high low = x.dotted := by
  refine ⟨⟨⟨high / 256, by omega⟩, ⟨high % 256, by omega⟩, ⟨low / 256, by omega⟩,
    ⟨low % 256, by omega⟩⟩, ?_, ?_⟩
  · simp only [Ipv4.words]
    rw [Nat.div_add_mod' high 256, Nat.div_add_mod' low 256]
  · have hand : ∀ n : ℕ, n &&& 0xff = n % 256 := fun n => Nat.and_two_pow_sub_one_eq_mod n 8
    have hshift : ∀ n : ℕ, n < 2 ^ 16 → (n >>> 8) % 256 = n / 256 := by
      intro n hn
      rw [Nat.shiftRight_eq_div_pow]
      omega
    simp only [embeddedV4, hand, hshift high hhigh, hshift low hlow, Ipv4.dotted, Ipv4.octets,
      List.map_cons, List.map_nil, List.intercalate_cons_cons, List.intercalate_singleton]
    simp

theorem words_injective {y : Ipv4} (h : x.words = y.words) : x = y := by
  obtain ⟨a, b, c, d⟩ := x
  obtain ⟨a', b', c', d'⟩ := y
  simp only [Ipv4.words, List.cons.injEq, and_true] at h
  simp only [Ipv4.mk.injEq, Fin.ext_iff]
  omega

/-- The addresses that eight groups stand for. -/
theorem embeds_iff {a b c d e f h i : ℕ} {y z : Ipv4} (hy : y.words = [h, i])
    (hz : z.words = [b, c]) : Embeds [a, b, c, d, e, f, h, i] x ↔
      (a = 0 ∧ b = 0 ∧ c = 0 ∧ d = 0 ∧ e = 0 ∧ f = 0xffff) ∧ x = y ∨
        (a = 0x64 ∧ b = 0xff9b ∧ c = 0 ∧ d = 0 ∧ e = 0 ∧ f = 0) ∧ x = y ∨
          a = 0x2002 ∧ x = z := by
  have hxy : x.words = [h, i] ↔ x = y :=
    ⟨fun hx => words_injective (hx.trans hy.symm), fun hx => hx ▸ hy⟩
  have hxz : x.words = [b, c] ↔ x = z :=
    ⟨fun hx => words_injective (hx.trans hz.symm), fun hx => hx ▸ hz⟩
  rw [← hxy, ← hxz, Embeds]
  simp only [Ipv4.words, List.cons_append, List.nil_append, List.cons.injEq, and_true,
    exists_and_left]
  constructor
  · rintro (h | h | ⟨h, h'⟩)
    · exact .inl (by omega)
    · exact .inr (.inl (by omega))
    · exact .inr (.inr (by omega))
  · rintro (h | h | h)
    · exact .inl (by omega)
    · exact .inr (.inl (by omega))
    · exact .inr (.inr ⟨h.1, h.2.1.symm, h.2.2.symm, _, rfl⟩)

theorem ite_true_iff {c : Prop} [Decidable c] {b : Bool} :
    (if c then true else b) = true ↔ c ∨ b = true := by
  by_cases hc : c <;> simp [hc]

theorem ite_left_iff {c : Prop} [Decidable c] {p b : Bool} :
    (if c then p else b) = true ↔ c ∧ p = true ∨ ¬ c ∧ b = true := by
  by_cases hc : c <;> simp [hc]

/-- The order of the tests does not matter, since the blocks whose answer is that of an embedded
address have nothing in common with those tested behind them. -/
theorem tests_iff {zeros one unique link multi mapped low trans local' sixToFour p q : Prop}
    (hzeros : zeros → low) (hone : one → low) (hlow : mapped → ¬ low)
    (hlocal : mapped ∨ trans → ¬ local') (hsix : mapped ∨ trans → ¬ sixToFour) :
    (zeros ∨ one ∨ unique ∨ link ∨ multi ∨ (mapped ∧ p ∨ ¬ mapped ∧ (low ∨ (trans ∧ p ∨ ¬ trans ∧
      (local' ∨ (sixToFour ∧ q ∨ ¬ sixToFour ∧ False)))))) ↔
        low ∨ unique ∨ link ∨ multi ∨ local' ∨ (mapped ∨ trans) ∧ p ∨ sixToFour ∧ q := by
  grind

theorem isPrivateIpv6_of_expand {isPrivate : Utf16Text → Bool}
    (hprivate : ∀ x : Ipv4, isPrivate x.dotted = true ↔ PrivateV4 x) {g : List ℕ}
    (h : expandIpv6 ip = some g) (hlength : g.length = 8) (hlt : ∀ v ∈ g, v < 2 ^ 16) :
    isPrivateIpv6 isPrivate ip = true ↔ PrivateV6 g := by
  match g, hlength with
  | [a, b, c, d, e, f, i, j], _ =>
    simp only [List.forall_mem_cons] at hlt
    obtain ⟨y, hy, hy'⟩ := exists_words hlt.2.2.2.2.2.2.1 hlt.2.2.2.2.2.2.2.1
    obtain ⟨z, hz, hz'⟩ := exists_words hlt.2.1 hlt.2.2.1
    have h7 : a &&& 0xfe00 = 0xfc00 ↔ a / 2 ^ 9 = 0xfc00 / 2 ^ 9 := by
      rw [show 0xfe00 = 2 ^ 16 - 2 ^ 9 from rfl, and_mask hlt.1 (by decide)]
      omega
    have h10 : a &&& 0xffc0 = 0xfe80 ↔ a / 2 ^ 6 = 0xfe80 / 2 ^ 6 := by
      rw [show 0xffc0 = 2 ^ 16 - 2 ^ 6 from rfl, and_mask hlt.1 (by decide)]
      omega
    have h8 : a &&& 0xff00 = 0xff00 ↔ a / 2 ^ 8 = 0xff00 / 2 ^ 8 := by
      rw [show a &&& 0xff00 = a &&& (2 ^ 16 - 2 ^ 8) from rfl, and_mask hlt.1 (by decide)]
      omega
    have hembeds : (∃ x, Embeds [a, b, c, d, e, f, i, j] x ∧ PrivateV4 x) ↔
        ((a = 0 ∧ b = 0 ∧ c = 0 ∧ d = 0 ∧ e = 0 ∧ f = 0xffff) ∨
          (a = 0x64 ∧ b = 0xff9b ∧ c = 0 ∧ d = 0 ∧ e = 0 ∧ f = 0)) ∧ PrivateV4 y ∨
            a = 0x2002 ∧ PrivateV4 z := by
      simp only [embeds_iff hy hz]
      grind
    rw [isPrivateIpv6, h, PrivateV6, hembeds]
    simp only [List.getD_cons_zero, List.getD_cons_succ, hy', hz', h7, h10, h8, List.headD_cons]
    rw [← hprivate y, ← hprivate z]
    generalize isPrivate y.dotted = p, isPrivate z.dotted = q
    simp only [List.all_cons, List.all_nil, List.take_succ_cons, List.take_zero, Bool.and_true,
      Bool.and_eq_true, decide_eq_true_eq, List.cons_prefix_cons, List.nil_prefix, and_true]
    rw [ite_true_iff, ite_true_iff, ite_true_iff, ite_true_iff, ite_true_iff, ite_left_iff,
      ite_true_iff, ite_left_iff, ite_true_iff, ite_left_iff]
    simp only [Bool.false_eq_true, eq_comm (b := a), eq_comm (b := b), eq_comm (b := c),
      eq_comm (b := d), eq_comm (b := e), eq_comm (b := f)]
    refine tests_iff ?_ ?_ ?_ ?_ ?_
    · exact fun hz => ⟨hz.1, hz.2.1, hz.2.2.1, hz.2.2.2.1, hz.2.2.2.2.1, hz.2.2.2.2.2.1⟩
    · exact fun hz =>
        ⟨hz.1.1, hz.1.2.1, hz.1.2.2.1, hz.1.2.2.2.1, hz.1.2.2.2.2.1, hz.1.2.2.2.2.2.1⟩
    · omega
    · omega
    · omega

/-- An address that stands for an IPv4 address is private exactly if this is. -/
theorem privateV6_iff_of_embeds {g : List ℕ} (h : Embeds g x) : PrivateV6 g ↔ PrivateV4 x := by
  have hunique : ∀ y, Embeds g y → y = x := by
    intro y hy
    apply words_injective
    rcases h with rfl | rfl | ⟨rest, rfl⟩ <;> rcases hy with hy | hy | ⟨rest', hy⟩ <;>
      simp_all [Ipv4.words]
  have hfirst : ¬ [0, 0, 0, 0, 0, 0] <+: g ∧ g.headD 0 < 0xfc00 ∧ ¬ [0x64, 0xff9b, 1] <+: g := by
    rcases h with rfl | rfl | ⟨rest, rfl⟩ <;> simp [List.cons_prefix_cons]
  obtain ⟨hlow, hhead, hlocal⟩ := hfirst
  constructor
  · rintro (hlow' | h7 | h10 | h8 | hlocal' | ⟨y, hy, hprivate⟩)
    · exact absurd hlow' hlow
    · omega
    · omega
    · omega
    · exact absurd hlocal' hlocal
    · exact hunique y hy ▸ hprivate
  · exact fun hprivate => .inr (.inr (.inr (.inr (.inr ⟨x, h, hprivate⟩))))

/-! ### The classification -/

theorem isPrivateIp_dotted (x : Ipv4) : isPrivateIp x.dotted = true ↔ PrivateV4 x := by
  have hfamily : isIp x.dotted = 4 := isIp_eq_four_iff.2 ⟨x, rfl⟩
  rw [isPrivateIp, isPrivateIpWith, hfamily]
  exact isPrivateIpv4_dotted x

theorem isPrivateIp_render (form : Ipv6Form) :
    isPrivateIp form.render = true ↔ Tight form ∨ PrivateV6 form.address := by
  have hfamily : isIp form.render = 6 := isIp_eq_six_iff.2 ⟨form, rfl⟩
  have hnested : ∀ x : Ipv4, isPrivateIpWith (fun _ => true) x.dotted = true ↔ PrivateV4 x := by
    intro x
    rw [isPrivateIpWith, isIp_eq_four_iff.2 ⟨x, rfl⟩]
    exact isPrivateIpv4_dotted x
  have hexpand := expandIpv6_render form
  rw [isPrivateIp, isPrivateIpWith, hfamily]
  by_cases htight : Tight form
  · rw [if_pos htight] at hexpand
    simp only [isPrivateIpv6, hexpand, htight, true_or]
  · rw [if_neg htight] at hexpand
    rw [or_iff_right htight]
    exact isPrivateIpv6_of_expand hnested hexpand (address_length form) (address_lt form)

theorem isPrivateIp_text (t : IpText) :
    isPrivateIp t.text = true ↔ t.IsTight ∨ PrivateAddress t.address := by
  cases t with
  | v4 x => exact (isPrivateIp_dotted x).trans (iff_of_eq (false_or _)).symm
  | v6 form => exact isPrivateIp_render form

/-- The texts of addresses are those that have a family. -/
theorem isIp_ne_zero_iff {text : Utf16Text} : isIp text ≠ 0 ↔ ∃ t : IpText, t.text = text := by
  constructor
  · intro h
    by_cases h4 : isIp text = 4
    · obtain ⟨x, hx⟩ := isIp_eq_four_iff.1 h4
      exact ⟨.v4 x, hx⟩
    · have h6 : isIp text = 6 := by
        rw [isIp] at h h4 ⊢
        split_ifs at h h4 ⊢ <;> omega
      obtain ⟨form, hform⟩ := isIp_eq_six_iff.1 h6
      exact ⟨.v6 form, hform⟩
  · rintro ⟨_ | _, rfl⟩
    · rw [IpText.text, isIp_eq_four_iff.2 ⟨_, rfl⟩]
      decide
    · rw [IpText.text, isIp_eq_six_iff.2 ⟨_, rfl⟩]
      decide

/-- **The classification depends on the address alone, but for tight forms**: two forms of an
address are classified alike exactly if the address is private, or both are tight or neither is.
An IPv4 address is private exactly if it is in a listed block, and a form that stands for an IPv4
address is classified as this exactly if this is private or the form is not tight. -/
theorem isPrivateIp_depends_on_address (text : Utf16Text) (s t : IpText) (form : Ipv6Form)
    (x : Ipv4) :
    (isIp text ≠ 0 ↔ ∃ t : IpText, t.text = text) ∧
    (s.address = t.address →
      (isPrivateIp s.text = isPrivateIp t.text ↔
        PrivateAddress s.address ∨ (s.IsTight ↔ t.IsTight))) ∧
    (isPrivateIp x.dotted = true ↔ PrivateV4 x) ∧
    (Embeds form.address x →
      (isPrivateIp form.render = isPrivateIp x.dotted ↔ PrivateV4 x ∨ ¬ Tight form)) := by
  refine ⟨isIp_ne_zero_iff, fun h => ?_, isPrivateIp_dotted x, fun h => ?_⟩
  · rw [Bool.eq_iff_iff, isPrivateIp_text, isPrivateIp_text, ← h]
    by_cases hprivate : PrivateAddress s.address
    · simp [hprivate]
    · simp [hprivate]
  · rw [Bool.eq_iff_iff, isPrivateIp_render, isPrivateIp_dotted, privateV6_iff_of_embeds h]
    by_cases hprivate : PrivateV4 x
    · simp [hprivate]
    · simp [hprivate]

/-- A group of a text. -/
def hexGroup (units : String) (h : isHexGroup (utf16 units) = true) : HexGroup where
  units := utf16 units
  ne_nil := by
    simp only [isHexGroup, Bool.and_eq_true, decide_eq_true_eq] at h
    exact h.1.1
  length_le := by
    simp only [isHexGroup, Bool.and_eq_true, decide_eq_true_eq] at h
    exact h.1.2
  hex := by
    simp only [isHexGroup, Bool.and_eq_true, List.all_eq_true] at h
    exact h.2

/-- `64:ff9b::8.8.8.8`, the usual form of a translated address. -/
def tightForm : Ipv6Form where
  left := [hexGroup "64" (by decide), hexGroup "ff9b" (by decide)]
  right := some []
  tail := some ⟨8, 8, 8, 8⟩
  zone := none
  full := nofun
  gap groups h := by
    obtain rfl := Option.some.inj h
    decide
  zone_units := nofun

/-- `64:ff9b::808:808`. -/
def looseForm : Ipv6Form where
  left := [hexGroup "64" (by decide), hexGroup "ff9b" (by decide)]
  right := some [hexGroup "808" (by decide), hexGroup "808" (by decide)]
  tail := none
  zone := none
  full := nofun
  gap groups h := by
    obtain rfl := Option.some.inj h
    decide
  zone_units := nofun

/-- `0064:FF9B::0808:0808`, the same groups written in full and in upper case. -/
def fullForm : Ipv6Form where
  left := [hexGroup "0064" (by decide), hexGroup "FF9B" (by decide)]
  right := some [hexGroup "0808" (by decide), hexGroup "0808" (by decide)]
  tail := none
  zone := none
  full := nofun
  gap groups h := by
    obtain rfl := Option.some.inj h
    decide
  zone_units := nofun

/-- Two forms that are not tight are classified alike, and as the embedded address `8.8.8.8`; the
tight form of the same address is not. -/
theorem isPrivateIp_depends_on_address_sample :
    isPrivateIp looseForm.render = isPrivateIp fullForm.render ∧
      isPrivateIp looseForm.render = isPrivateIp (Ipv4.dotted ⟨8, 8, 8, 8⟩) ∧
      isPrivateIp tightForm.render ≠ isPrivateIp (Ipv4.dotted ⟨8, 8, 8, 8⟩) := by
  have hpublic : ¬ PrivateV4 ⟨8, 8, 8, 8⟩ := by decide
  have hsame : (IpText.v6 looseForm).address = (IpText.v6 fullForm).address :=
    congrArg Address.v6 (by decide +kernel : looseForm.address = fullForm.address)
  have hloose := isPrivateIp_depends_on_address [] (.v6 looseForm) (.v6 fullForm) looseForm
    ⟨8, 8, 8, 8⟩
  have htight := isPrivateIp_depends_on_address [] (.v6 tightForm) (.v6 tightForm) tightForm
    ⟨8, 8, 8, 8⟩
  refine ⟨(hloose.2.1 hsame).2 (.inr ?_), (hloose.2.2.2 (.inr (.inl (by decide +kernel)))).2
    (.inr (by decide)), fun hequal => ?_⟩
  · exact iff_of_false (by decide : ¬ Tight looseForm) (by decide : ¬ Tight fullForm)
  · rcases (htight.2.2.2 (.inr (.inl (by decide +kernel)))).1 hequal with hprivate | hnot
    · exact hpublic hprivate
    · exact hnot (by decide)

/-- The two forms write one address, and only one of them is classified as private. -/
theorem tight_form_differs :
    ¬ ∀ s t : IpText, s.address = t.address → isPrivateIp s.text = isPrivateIp t.text := by
  intro h
  have hsame : (IpText.v6 tightForm).address = (IpText.v6 looseForm).address :=
    congrArg Address.v6 (by decide +kernel : tightForm.address = looseForm.address)
  have htight : isPrivateIp tightForm.render = true := by decide +kernel
  have hloose : isPrivateIp looseForm.render = false := by decide +kernel
  have heq := h _ _ hsame
  rw [IpText.text, IpText.text, htight, hloose] at heq
  cases heq

end Munin.Net
