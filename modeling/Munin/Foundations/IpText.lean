import Munin.Foundations.Utf16Text

/-!
# Texts of IP addresses

How IP addresses are written. An IPv4 address has one text, four numbers without leading zeros. An
IPv6 address has many: groups of hex digits of either case and with leading zeros, the longest run
of zeros or another one left out, the last four bytes written as an IPv4 address, a zone behind it.

* **`Ipv4.dotted`**, **`Ipv6Form.render`** — the texts; `Ipv6Form.address` is the address that a
  form writes.
* **`isIp`** — the family of a text, as `isIP` of `node:net` says it. It accepts exactly these
  texts (`isIp_eq_four_iff`, `isIp_eq_six_iff`).
-/

namespace Foundations

/-! ### IPv4 -/

/-- An IPv4 address. -/
structure Ipv4 where
  a : Fin 256
  b : Fin 256
  c : Fin 256
  d : Fin 256

/-- A number below 256 in decimal digits. -/
def octetText (n : ℕ) : Utf16Text :=
  if n < 10 then [0x30 + n]
  else if n < 100 then [0x30 + n / 10, 0x30 + n % 10]
  else [0x30 + n / 100, 0x30 + n / 10 % 10, 0x30 + n % 10]

namespace Ipv4

/-- The numbers of an address. -/
def octets (x : Ipv4) : List (Fin 256) := [x.a, x.b, x.c, x.d]

/-- The address as a number. -/
def value (x : Ipv4) : ℕ := ((x.a.val * 256 + x.b.val) * 256 + x.c.val) * 256 + x.d.val

/-- The address as two groups of an IPv6 address. -/
def words (x : Ipv4) : List ℕ := [x.a.val * 256 + x.b.val, x.c.val * 256 + x.d.val]

/-- An address as it is written. -/
def dotted (x : Ipv4) : Utf16Text :=
  [0x2e].intercalate (x.octets.map fun n => octetText n.val)

end Ipv4

/-- A number of an address, without zeros in front. -/
def isOctet (part : Utf16Text) : Bool := (List.range 256).any fun n => octetText n = part

/-- Node's `isIPv4`. -/
def isIPv4 (text : Utf16Text) : Bool :=
  match text.splitOn 0x2e with
  | [p, q, r, s] => isOctet p && isOctet q && isOctet r && isOctet s
  | _ => false

/-! ### IPv6 -/

/-- A hexadecimal digit. -/
def isHexUnit (u : ℕ) : Bool :=
  (0x30 ≤ u && u ≤ 0x39) || (0x41 ≤ u && u ≤ 0x46) || (0x61 ≤ u && u ≤ 0x66)

/-- The value of a hex digit of either case. -/
def hexDigitValue (u : ℕ) : ℕ :=
  if u ≤ 0x39 then u - 0x30 else if u ≤ 0x46 then u - 0x37 else u - 0x57

/-- A group of one to four hex digits. -/
structure HexGroup where
  units : Utf16Text
  ne_nil : units ≠ []
  length_le : units.length ≤ 4
  hex : ∀ u ∈ units, isHexUnit u = true

/-- The number that the digits write. -/
def hexValue (units : Utf16Text) : ℕ := units.foldl (fun n u => 16 * n + hexDigitValue u) 0

/-- Some groups with colons between them, and perhaps an IPv4 address behind. -/
def sideText (groups : List HexGroup) (tail : Option Ipv4) : Utf16Text :=
  [0x3a].intercalate (groups.map HexGroup.units ++ tail.toList.map Ipv4.dotted)

/-- How many groups of an address a side is. -/
def sideCount (groups : List HexGroup) (tail : Option Ipv4) : ℕ :=
  groups.length + 2 * tail.toList.length

/-- `[0-9a-zA-Z-.:]`. -/
def isZoneUnit (u : ℕ) : Bool :=
  (0x30 ≤ u && u ≤ 0x3a) || (0x41 ≤ u && u ≤ 0x5a) || (0x61 ≤ u && u ≤ 0x7a) || u == 0x2d ||
    u == 0x2e

/-- A way to write an IPv6 address: the groups before the gap, those behind it if there is one, an
IPv4 address behind these, and a zone. -/
structure Ipv6Form where
  left : List HexGroup
  right : Option (List HexGroup)
  tail : Option Ipv4
  zone : Option Utf16Text
  full : right = none → sideCount left tail = 8
  gap : ∀ groups, right = some groups → left.length + sideCount groups tail ≤ 7
  zone_units : ∀ units, zone = some units → units ≠ [] ∧ ∀ u ∈ units, isZoneUnit u = true

namespace Ipv6Form

/-- The same groups with another zone. -/
def withZone (form : Ipv6Form) (zone : Option Utf16Text)
    (h : ∀ units, zone = some units → units ≠ [] ∧ ∀ u ∈ units, isZoneUnit u = true) : Ipv6Form :=
  { form with zone := zone, zone_units := h }

/-- The text without the zone. -/
def body (form : Ipv6Form) : Utf16Text :=
  match form.right with
  | none => sideText form.left form.tail
  | some groups => sideText form.left none ++ [0x3a, 0x3a] ++ sideText groups form.tail

/-- The zone behind its sign. -/
def zoneText (form : Ipv6Form) : Utf16Text :=
  match form.zone with
  | none => []
  | some units => 0x25 :: units

/-- A form as it is written. -/
def render (form : Ipv6Form) : Utf16Text := form.body ++ form.zoneText

/-- The groups of the address. -/
def address (form : Ipv6Form) : List ℕ :=
  let tail := form.tail.toList.flatMap Ipv4.words
  let left := form.left.map fun group => hexValue group.units
  match form.right with
  | none => left ++ tail
  | some groups =>
    left ++ List.replicate (8 - (form.left.length + sideCount groups form.tail)) 0 ++
      groups.map (fun group => hexValue group.units) ++ tail

end Ipv6Form

/-- One to four digits. -/
def isHexGroup (units : Utf16Text) : Bool :=
  units ≠ [] && units.length ≤ 4 && units.all isHexUnit

/-- How many groups of an address some pieces are; the last one may be an IPv4 address. -/
def countPieces (tail : Bool) : List Utf16Text → Option ℕ
  | [] => some 0
  | piece :: rest =>
    if isHexGroup piece then (countPieces tail rest).map (· + 1)
    else if tail && rest = [] && isIPv4 piece then some 2
    else none

/-- The groups of a side, if all of it is groups. -/
def countGroups (tail : Bool) (side : Utf16Text) : Option ℕ :=
  if side = [] then some 0 else countPieces tail (side.splitOn 0x3a)

/-- Whether a text writes an IPv6 address without a zone. -/
def isIPv6Body (body : Utf16Text) : Bool :=
  countGroups true body = some 8 ||
    (List.range (body.length + 1)).any fun i =>
      OccursAt [0x3a, 0x3a] body i &&
        (((countGroups false (body.take i)).bind fun m =>
          (countGroups true (body.drop (i + 2))).map fun n => m + n).any fun n => n ≤ 7)

/-- Node's `isIPv6`. -/
def isIPv6 (text : Utf16Text) : Bool :=
  let zone := text.dropWhile (· ≠ 0x25)
  isIPv6Body (text.takeWhile (· ≠ 0x25)) &&
    (zone = [] || (1 < zone.length && zone.tail.all isZoneUnit))

/-- The family of a text, 0 if it writes no address. -/
def isIp (text : Utf16Text) : ℕ := if isIPv4 text then 4 else if isIPv6 text then 6 else 0

/-! ### IPv4 texts -/

variable {n : ℕ} {text : Utf16Text} {groups : List HexGroup} {quad : Option Ipv4} {form : Ipv6Form}

theorem octetText_units (hn : n < 256) : ∀ u ∈ octetText n, 0x30 ≤ u ∧ u ≤ 0x39 := by
  intro u hu
  rw [octetText] at hu
  split_ifs at hu <;> simp only [List.mem_cons, List.not_mem_nil, or_false] at hu <;> omega

theorem isOctet_iff {part : Utf16Text} :
    isOctet part = true ↔ ∃ n : Fin 256, octetText n.val = part := by
  simp only [isOctet, List.any_eq_true, List.mem_range, decide_eq_true_eq]
  exact ⟨fun ⟨n, hn, h⟩ => ⟨⟨n, hn⟩, h⟩, fun ⟨n, h⟩ => ⟨n.val, n.isLt, h⟩⟩

theorem splitOn_dotted (x : Ipv4) :
    x.dotted.splitOn 0x2e = x.octets.map fun n => octetText n.val := by
  refine List.splitOn_intercalate 0x2e (fun part hpart hdot => ?_) (by simp [Ipv4.octets])
  obtain ⟨n, -, rfl⟩ := List.mem_map.1 hpart
  have := octetText_units n.isLt 0x2e hdot
  omega

/-- **A text is accepted exactly if it writes an IPv4 address**. -/
theorem isIPv4_iff : isIPv4 text = true ↔ ∃ x : Ipv4, x.dotted = text := by
  rw [isIPv4]
  constructor
  · intro h
    split at h
    · rename_i p q r s hsplit
      simp only [Bool.and_eq_true, isOctet_iff] at h
      obtain ⟨⟨⟨⟨a, rfl⟩, b, rfl⟩, c, rfl⟩, d, rfl⟩ := h
      refine ⟨⟨a, b, c, d⟩, ?_⟩
      have hjoin : [0x2e].intercalate (text.splitOn 0x2e) = text := List.intercalate_splitOn 0x2e
      rw [← hjoin, hsplit]
      rfl
    · cases h
  · rintro ⟨x, rfl⟩
    rw [splitOn_dotted]
    simp [Ipv4.octets, isOctet_iff]

/-- The units of an IPv4 address. -/
theorem dotted_units (x : Ipv4) :
    ∀ u ∈ x.dotted, u = 0x2e ∨ 0x30 ≤ u ∧ u ≤ 0x39 := by
  intro u hu
  simp only [Ipv4.dotted, Ipv4.octets, List.map_cons, List.map_nil, List.intercalate_cons_cons,
    List.intercalate_singleton, List.mem_append, List.mem_singleton] at hu
  have hoctet := fun n : Fin 256 => octetText_units n.isLt u
  grind

theorem dotted_ne_nil (x : Ipv4) : x.dotted ≠ [] := by
  simp [Ipv4.dotted, Ipv4.octets, List.intercalate_cons_cons]

/-- A text with a dot is no group. -/
theorem isHexGroup_dotted (x : Ipv4) : isHexGroup x.dotted = false := by
  have hdot : 0x2e ∈ x.dotted := by
    simp [Ipv4.dotted, Ipv4.octets, List.intercalate_cons_cons]
  rw [Bool.eq_false_iff]
  intro h
  simp only [isHexGroup, Bool.and_eq_true, List.all_eq_true] at h
  exact absurd (h.2 _ hdot) (by decide)

/-! ### IPv6 texts -/

theorem isHexGroup_iff {units : Utf16Text} :
    isHexGroup units = true ↔ ∃ group : HexGroup, group.units = units := by
  constructor
  · intro h
    simp only [isHexGroup, Bool.and_eq_true, decide_eq_true_eq, List.all_eq_true] at h
    exact ⟨⟨units, h.1.1, h.1.2, h.2⟩, rfl⟩
  · rintro ⟨group, rfl⟩
    simp only [isHexGroup, Bool.and_eq_true, decide_eq_true_eq, List.all_eq_true]
    exact ⟨⟨group.ne_nil, group.length_le⟩, group.hex⟩

variable {pieces : List Utf16Text}

theorem countPieces_eq_some_iff {tail : Bool} :
    countPieces tail pieces = some n ↔ ∃ groups quad, (quad.isSome = true → tail = true) ∧
      groups.map HexGroup.units ++ quad.toList.map Ipv4.dotted = pieces ∧
      sideCount groups quad = n := by
  induction pieces generalizing n with
  | nil =>
    rw [countPieces]
    constructor
    · intro h
      exact ⟨[], none, nofun, rfl, Option.some.inj h⟩
    · rintro ⟨groups, quad, -, hpieces, rfl⟩
      simp only [List.append_eq_nil_iff, List.map_eq_nil_iff] at hpieces
      simp [sideCount, hpieces.1, hpieces.2]
  | cons piece rest ih =>
    rw [countPieces]
    constructor
    · intro h
      split_ifs at h with hgroup hquad
      · obtain ⟨m, hm, rfl⟩ := Option.map_eq_some_iff.1 h
        obtain ⟨group, rfl⟩ := isHexGroup_iff.1 hgroup
        obtain ⟨groups, quad, htail, rfl, rfl⟩ := ih.1 hm
        exact ⟨group :: groups, quad, htail, rfl, by simp [sideCount]; omega⟩
      · simp only [Bool.and_eq_true, decide_eq_true_eq] at hquad
        obtain ⟨⟨htail, rfl⟩, hquad⟩ := hquad
        obtain ⟨x, rfl⟩ := isIPv4_iff.1 hquad
        exact ⟨[], some x, fun _ => htail, rfl, Option.some.inj h⟩
    · rintro ⟨_ | ⟨group, groups⟩, quad, htail, hpieces, rfl⟩
      · cases quad with
        | none => simp at hpieces
        | some x =>
          obtain ⟨rfl, rfl⟩ := List.cons.inj hpieces
          rw [if_neg (by rw [isHexGroup_dotted]; exact Bool.false_ne_true), if_pos]
          · rfl
          · rw [htail rfl, isIPv4_iff.2 ⟨x, rfl⟩]
            rfl
      · obtain ⟨rfl, rfl⟩ := List.cons.inj hpieces
        rw [if_pos (isHexGroup_iff.2 ⟨group, rfl⟩), ih.2 ⟨groups, quad, htail, rfl, rfl⟩]
        simp [sideCount]
        omega

/-- No piece has a colon, and none is empty. -/
theorem piece_units : ∀ piece ∈ groups.map HexGroup.units ++ quad.toList.map Ipv4.dotted,
      piece ≠ [] ∧ 0x3a ∉ piece ∧ 0x25 ∉ piece := by
  intro piece hpiece
  rcases List.mem_append.1 hpiece with hgroup | hquad
  · obtain ⟨group, -, rfl⟩ := List.mem_map.1 hgroup
    exact ⟨group.ne_nil, fun h => absurd (group.hex _ h) (by decide),
      fun h => absurd (group.hex _ h) (by decide)⟩
  · obtain ⟨x, -, rfl⟩ := List.mem_map.1 hquad
    refine ⟨dotted_ne_nil x, fun h => ?_, fun h => ?_⟩
    · have := dotted_units x _ h
      omega
    · have := dotted_units x _ h
      omega

/-- The pieces of a side are those between its colons. -/
theorem splitOn_sideText (h : groups.map HexGroup.units ++ quad.toList.map Ipv4.dotted ≠ []) :
    (sideText groups quad).splitOn 0x3a =
      groups.map HexGroup.units ++ quad.toList.map Ipv4.dotted :=
  List.splitOn_intercalate 0x3a (fun piece h => (piece_units piece h).2.1) h

theorem sideText_ne_nil (h : groups.map HexGroup.units ++ quad.toList.map Ipv4.dotted ≠ []) :
    sideText groups quad ≠ [] := by
  intro hempty
  have hsplit := splitOn_sideText h
  rw [hempty, List.splitOn_nil] at hsplit
  exact (piece_units [] (hsplit ▸ List.mem_singleton_self _)).1 rfl

/-- A side is no text with a colon at an end, and has no two colons side by side. -/
theorem sideText_ne {before after : Utf16Text}
    (hends : [] ∈ before.splitOn 0x3a ∨ [] ∈ after.splitOn 0x3a) :
    sideText groups quad ≠ before ++ 0x3a :: after := by
  intro heq
  by_cases hnil : groups.map HexGroup.units ++ quad.toList.map Ipv4.dotted = []
  · rw [sideText, hnil, List.intercalate_nil] at heq
    simp at heq
  · have hsplit := splitOn_sideText hnil
    rw [heq, List.splitOn_append_cons_self] at hsplit
    have hmem : [] ∈ groups.map HexGroup.units ++ quad.toList.map Ipv4.dotted := by
      rw [← hsplit, List.mem_append]
      exact hends
    exact (piece_units [] hmem).1 rfl

theorem countGroups_eq_some_iff {tail : Bool} {side : Utf16Text} :
    countGroups tail side = some n ↔ ∃ groups quad, (quad.isSome = true → tail = true) ∧
      sideText groups quad = side ∧ sideCount groups quad = n := by
  rw [countGroups]
  constructor
  · intro h
    split_ifs at h with hnil
    · exact ⟨[], none, nofun, hnil.symm, Option.some.inj h⟩
    · obtain ⟨groups, quad, htail, hpieces, hn⟩ := countPieces_eq_some_iff.1 h
      refine ⟨groups, quad, htail, ?_, hn⟩
      rw [sideText, hpieces, List.intercalate_splitOn]
  · rintro ⟨groups, quad, htail, rfl, rfl⟩
    by_cases hnil : groups.map HexGroup.units ++ quad.toList.map Ipv4.dotted = []
    · rw [if_pos (by rw [sideText, hnil]; rfl)]
      simp only [List.append_eq_nil_iff, List.map_eq_nil_iff] at hnil
      simp [sideCount, hnil.1, hnil.2]
    · rw [if_neg (sideText_ne_nil hnil), splitOn_sideText hnil]
      exact countPieces_eq_some_iff.2 ⟨groups, quad, htail, rfl, rfl⟩

/-- Two colons never stand side by side in a side. -/
theorem not_occursAt_colons {j : ℕ} : ¬ OccursAt [0x3a, 0x3a] (sideText groups quad) j := by
  rintro ⟨rest, hrest⟩
  have heq : sideText groups quad = (sideText groups quad).take j ++ 0x3a :: (0x3a :: rest) := by
    rw [show 0x3a :: (0x3a :: rest) = (sideText groups quad).drop j from hrest,
      List.take_append_drop]
  refine sideText_ne (.inr ?_) heq
  rw [List.splitOn_cons_eq_if_modifyHead, if_pos (beq_self_eq_true _)]
  exact List.mem_cons_self

/-- Two colons do not stand side by side from within a side. -/
theorem not_occursAt_side {left : List HexGroup} {more : Utf16Text} {j : ℕ}
    (hj : j < (sideText left none).length) :
    ¬ OccursAt [0x3a, 0x3a] (sideText left none ++ more) j := by
  rintro ⟨rest, hrest⟩
  rw [List.drop_append_of_le_length (Nat.le_of_lt hj)] at hrest
  have hleft := List.take_append_drop j (sideText left none)
  match hdrop : (sideText left none).drop j with
  | [] =>
    rw [List.drop_eq_nil_iff] at hdrop
    omega
  | [u] =>
    rw [hdrop] at hrest hleft
    obtain rfl := (List.cons.inj hrest).1
    exact absurd hleft.symm (sideText_ne (.inr (by simp)))
  | u :: v :: more =>
    rw [hdrop] at hrest
    obtain ⟨rfl, htail⟩ := List.cons.inj hrest
    obtain ⟨rfl, -⟩ := List.cons.inj htail
    have hoccurs : OccursAt [0x3a, 0x3a] (sideText left none) j := ⟨more, hdrop.symm⟩
    exact absurd hoccurs not_occursAt_colons

/-- Two colons stand side by side in a text of two sides only between these. -/
theorem occursAt_colons_iff {left right : List HexGroup} {j : ℕ} :
    OccursAt [0x3a, 0x3a] (sideText left none ++ ([0x3a, 0x3a] ++ sideText right quad)) j ↔
      j = (sideText left none).length := by
  constructor
  · intro hoccurs
    rcases Nat.lt_trichotomy j (sideText left none).length with hlt | heq | hgt
    · exact absurd hoccurs (not_occursAt_side hlt)
    · exact heq
    · obtain ⟨rest, hrest⟩ := hoccurs
      obtain ⟨k, rfl⟩ := Nat.exists_eq_add_of_lt hgt
      rw [Nat.add_assoc, ← List.drop_drop, List.drop_left] at hrest
      cases k with
      | zero =>
        obtain ⟨-, hright⟩ := List.cons.inj hrest
        exact absurd hright.symm (@sideText_ne right quad [] rest (.inl (by simp)))
      | succ k => exact absurd ⟨rest, hrest⟩ (@not_occursAt_colons right quad k)
  · rintro rfl
    rw [OccursAt, List.drop_left]
    exact List.prefix_append _ _

theorem Ipv6Form.body_of_full (h : form.right = none) :
    form.body = sideText form.left form.tail := by
  rw [Ipv6Form.body, h]

theorem Ipv6Form.body_of_gap (h : form.right = some groups) :
    form.body = sideText form.left none ++ ([0x3a, 0x3a] ++ sideText groups form.tail) := by
  simp only [Ipv6Form.body, h, List.append_assoc]

theorem Ipv6Form.address_of_full (h : form.right = none) :
    form.address = form.left.map (fun group => hexValue group.units) ++
      form.tail.toList.flatMap Ipv4.words := by
  simp only [Ipv6Form.address, h]

theorem Ipv6Form.address_of_gap (h : form.right = some groups) :
    form.address = form.left.map (fun group => hexValue group.units) ++
      List.replicate (8 - (form.left.length + sideCount groups form.tail)) 0 ++
        groups.map (fun group => hexValue group.units) ++
          form.tail.toList.flatMap Ipv4.words := by
  simp only [Ipv6Form.address, h]

theorem isIPv6Body_iff {body : Utf16Text} :
    isIPv6Body body = true ↔ ∃ form : Ipv6Form, form.body = body := by
  simp only [isIPv6Body, Bool.or_eq_true, decide_eq_true_eq, List.any_eq_true, List.mem_range,
    Bool.and_eq_true, Option.any_eq_true]
  constructor
  · rintro (hfull | ⟨i, -, ⟨behind, hbehind⟩, n, hn, hle⟩)
    · obtain ⟨groups, quad, -, rfl, hcount⟩ := countGroups_eq_some_iff.1 hfull
      exact ⟨⟨groups, none, quad, none, fun _ => hcount, nofun, nofun⟩, rfl⟩
    · obtain ⟨m, hm, k, hk, rfl⟩ : ∃ m, countGroups false (body.take i) = some m ∧
          ∃ k, countGroups true (body.drop (i + 2)) = some k ∧ m + k = n := by
        simpa [Option.bind_eq_some_iff] using hn
      obtain ⟨left, quad, hquad, hleft, rfl⟩ := countGroups_eq_some_iff.1 hm
      obtain rfl : quad = none := Option.not_isSome_iff_eq_none.1 fun h => nomatch hquad h
      obtain ⟨right, tail, -, hright, rfl⟩ := countGroups_eq_some_iff.1 hk
      refine ⟨⟨left, some right, tail, none, nofun, ?_, nofun⟩, ?_⟩
      · intro groups hgroups
        obtain rfl := Option.some.inj hgroups
        simpa [sideCount] using hle
      · have hdrop : behind = body.drop (i + 2) := by
          rw [← List.drop_drop, ← hbehind]
          rfl
        rw [Ipv6Form.body]
        simp only [hleft, hright]
        rw [List.append_assoc, ← hdrop, hbehind, List.take_append_drop]
  · rintro ⟨form, rfl⟩
    cases hright : form.right with
    | none =>
      exact .inl (countGroups_eq_some_iff.2
        ⟨form.left, form.tail, fun _ => rfl, (form.body_of_full hright).symm, form.full hright⟩)
    | some groups =>
      rw [form.body_of_gap hright]
      refine .inr ⟨(sideText form.left none).length, ?_, ?_,
        sideCount form.left none + sideCount groups form.tail, ?_, ?_⟩
      · rw [List.length_append]
        omega
      · rw [OccursAt, List.drop_left]
        exact List.prefix_append _ _
      · have hbehind : (sideText form.left none ++ ([0x3a, 0x3a] ++ sideText groups form.tail)).drop
            ((sideText form.left none).length + 2) = sideText groups form.tail := by
          rw [← List.drop_drop, List.drop_left]
          rfl
        rw [List.take_left, hbehind,
          countGroups_eq_some_iff.2 ⟨form.left, none, by simp, rfl, rfl⟩,
          countGroups_eq_some_iff.2 ⟨groups, form.tail, fun _ => rfl, rfl, rfl⟩]
        rfl
      · simpa [sideCount] using form.gap groups hright

/-- A unit of pieces joined by colons is a colon or a unit of a piece. -/
theorem mem_intercalate_colon {u : ℕ}
    (h : u ∈ [0x3a].intercalate pieces) : u = 0x3a ∨ ∃ piece ∈ pieces, u ∈ piece := by
  induction pieces with
  | nil => cases h
  | cons piece rest ih =>
    cases rest with
    | nil =>
      rw [List.intercalate_singleton] at h
      exact .inr ⟨piece, List.mem_singleton_self _, h⟩
    | cons next rest =>
      rw [List.intercalate_cons_cons, List.mem_append, List.mem_append, List.mem_singleton] at h
      rcases h with (hpiece | rfl) | hrest
      · exact .inr ⟨piece, List.mem_cons_self, hpiece⟩
      · exact .inl rfl
      · rcases ih hrest with rfl | ⟨other, hother, hu⟩
        · exact .inl rfl
        · exact .inr ⟨other, List.mem_cons_of_mem _ hother, hu⟩

/-- An IPv4 address stands behind the groups of a side. -/
theorem sideText_some (h : groups ≠ []) (x : Ipv4) :
    sideText groups (some x) = sideText groups none ++ 0x3a :: x.dotted := by
  induction groups with
  | nil => exact absurd rfl h
  | cons group rest ih =>
    simp only [sideText, Option.toList_some, Option.toList_none, List.map_nil, List.append_nil,
      List.map_cons] at ih ⊢
    cases rest with
    | nil => simp [List.intercalate_cons_cons]
    | cons next rest =>
      have hrest := ih (List.cons_ne_nil next rest)
      simp only [List.map_cons, List.cons_append, List.intercalate_cons_cons] at hrest ⊢
      rw [hrest]
      simp

/-- Without an IPv4 address a side has no dot. -/
theorem dot_not_mem_sideText (groups : List HexGroup) : 0x2e ∉ sideText groups none := by
  intro h
  rcases mem_intercalate_colon h with hcolon | ⟨piece, hpiece, hu⟩
  · omega
  · simp only [Option.toList_none, List.map_nil, List.append_nil, List.mem_map] at hpiece
    obtain ⟨group, -, rfl⟩ := hpiece
    exact absurd (group.hex _ hu) (by decide)

theorem sideText_units : ∀ u ∈ sideText groups quad, 0x25 ≤ u ∧ u ≤ 0x7a := by
  intro u hu
  rcases mem_intercalate_colon hu with rfl | ⟨piece, hpiece, hu⟩
  · omega
  · rcases List.mem_append.1 hpiece with hgroup | hquad
    · obtain ⟨group, -, rfl⟩ := List.mem_map.1 hgroup
      have hhex := group.hex u hu
      simp only [isHexUnit, Bool.or_eq_true, Bool.and_eq_true, decide_eq_true_eq] at hhex
      omega
    · obtain ⟨x, -, rfl⟩ := List.mem_map.1 hquad
      have := dotted_units x u hu
      omega

/-- The units of an IPv6 address lie between `%` and `z`. -/
theorem render_units (form : Ipv6Form) : ∀ u ∈ form.render, 0x25 ≤ u ∧ u ≤ 0x7a := by
  intro u hu
  rcases List.mem_append.1 hu with hbody | hzone
  · cases hright : form.right with
    | none =>
      rw [form.body_of_full hright] at hbody
      exact sideText_units u hbody
    | some groups =>
      rw [form.body_of_gap hright] at hbody
      simp only [List.mem_append, List.mem_cons, List.not_mem_nil, or_false] at hbody
      rcases hbody with hleft | (rfl | rfl) | hright
      · exact sideText_units u hleft
      · omega
      · omega
      · exact sideText_units u hright
  · rw [Ipv6Form.zoneText] at hzone
    split at hzone
    · cases hzone
    · rename_i units hform
      rcases List.mem_cons.1 hzone with rfl | hu
      · omega
      · have hunit := (form.zone_units units hform).2 u hu
        simp only [isZoneUnit, Bool.or_eq_true, Bool.and_eq_true, decide_eq_true_eq,
          beq_iff_eq] at hunit
        omega

/-- The text without the zone has no sign of a zone. -/
theorem percent_not_mem_body (form : Ipv6Form) : 0x25 ∉ form.body := by
  have hside : ∀ groups quad, 0x25 ∉ sideText groups quad := by
    intro groups quad h
    rcases mem_intercalate_colon h with hcolon | ⟨piece, hpiece, hu⟩
    · omega
    · exact (piece_units piece hpiece).2.2 hu
  rw [Ipv6Form.body]
  split
  · exact hside _ _
  · simp [hside]

/-- **A text is accepted exactly if it writes an IPv6 address**. -/
theorem isIPv6_iff : isIPv6 text = true ↔ ∃ form : Ipv6Form, form.render = text := by
  simp only [isIPv6, Bool.and_eq_true, isIPv6Body_iff, Bool.or_eq_true, decide_eq_true_eq,
    List.all_eq_true]
  constructor
  · rintro ⟨⟨form, hbody⟩, hzone⟩
    have htext : text.takeWhile (· ≠ 0x25) ++ text.dropWhile (· ≠ 0x25) = text :=
      List.takeWhile_append_dropWhile
    rcases hzone with hnone | ⟨hlength, hunits⟩
    · refine ⟨form.withZone none nofun, ?_⟩
      rw [hnone, List.append_nil] at htext
      rw [← htext, ← hbody]
      exact List.append_nil _
    · obtain ⟨u, units, hdrop⟩ : ∃ u units, text.dropWhile (· ≠ 0x25) = u :: units :=
        List.exists_cons_of_ne_nil (List.ne_nil_of_length_pos (Nat.zero_lt_of_lt hlength))
      have hu : u = 0x25 := by
        have hhead := List.head?_dropWhile_not (fun u => decide (u ≠ 0x25)) text
        rw [hdrop] at hhead
        simpa using hhead
      rw [hdrop] at hlength hunits htext
      have hunits' : ∀ units', some units = some units' →
          units' ≠ [] ∧ ∀ u ∈ units', isZoneUnit u = true := by
        rintro _ ⟨rfl⟩
        refine ⟨List.ne_nil_of_length_pos ?_, hunits⟩
        rw [List.length_cons] at hlength
        omega
      refine ⟨form.withZone (some units) hunits', ?_⟩
      rw [← hbody, hu] at htext
      exact htext
  · rintro ⟨form, rfl⟩
    have hbody : ∀ u ∈ form.body, decide (u ≠ 0x25) = true := by
      intro u hu
      exact decide_eq_true fun h => percent_not_mem_body form (h ▸ hu)
    have hzone : (form.zoneText.takeWhile fun u => decide (u ≠ 0x25)) = [] ∧
        (form.zoneText.dropWhile fun u => decide (u ≠ 0x25)) = form.zoneText := by
      rw [Ipv6Form.zoneText]
      split
      · exact ⟨rfl, rfl⟩
      · exact ⟨rfl, rfl⟩
    rw [Ipv6Form.render, List.takeWhile_append_of_pos hbody, List.dropWhile_append_of_pos hbody,
      hzone.1, hzone.2, List.append_nil]
    refine ⟨⟨form, rfl⟩, ?_⟩
    cases hform : form.zone with
    | none => exact .inl (by rw [Ipv6Form.zoneText, hform])
    | some units =>
      obtain ⟨hne, hunits⟩ := form.zone_units units hform
      refine .inr ?_
      rw [Ipv6Form.zoneText, hform]
      refine ⟨?_, hunits⟩
      rw [List.length_cons]
      have := List.length_pos_iff.2 hne
      omega

/-! ### Families -/

theorem isIp_eq_four_iff : isIp text = 4 ↔ ∃ x : Ipv4, x.dotted = text := by
  rw [isIp, ← isIPv4_iff]
  split_ifs with h4 h6
  · simp [h4]
  · simp [h4]
  · simp [h4]

/-- An IPv6 address has a colon, and an IPv4 address has none. -/
theorem isIPv4_render (form : Ipv6Form) : isIPv4 form.render = false := by
  rw [Bool.eq_false_iff]
  intro h
  obtain ⟨x, hx⟩ := isIPv4_iff.1 h
  have hcolon : 0x3a ∈ form.body := by
    cases hright : form.right with
    | none =>
      have hfull := form.full hright
      rw [form.body_of_full hright, sideText]
      have htail : form.tail.toList.length ≤ 1 := Option.length_toList_le
      rw [sideCount] at hfull
      match hleft : form.left with
      | [] =>
        rw [hleft, List.length_nil] at hfull
        omega
      | [_] =>
        rw [hleft, List.length_singleton] at hfull
        omega
      | _ :: _ :: _ => simp [List.intercalate_cons_cons]
    | some groups =>
      rw [form.body_of_gap hright]
      simp
  have hmem : 0x3a ∈ x.dotted := hx ▸ List.mem_append_left _ hcolon
  have := dotted_units x _ hmem
  omega

theorem isIp_eq_six_iff : isIp text = 6 ↔ ∃ form : Ipv6Form, form.render = text := by
  rw [isIp, ← isIPv6_iff]
  split_ifs with h4 h6
  · refine ⟨nofun, fun h => ?_⟩
    obtain ⟨form, rfl⟩ := isIPv6_iff.1 h
    rw [isIPv4_render] at h4
    cases h4
  · simp [h6]
  · simp [h6]

end Foundations
