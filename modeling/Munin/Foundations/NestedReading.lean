import Mathlib.Data.List.Basic
import Mathlib.Data.Nat.Notation

/-!
# Reading lists that name further lists

A list answers with its items, or with its parts, which are lists themselves. A reader goes through
the parts one after the other, each with its own parts, and leaves out the rest once it has enough
items.

* **`NestedReading.read`** — the reading of a list, with fuel that bounds how deep it goes.
* **`Yields`** — the items of a list, without fuel: what a reading returns if it ends.
* **`Follows`** — a part is read for a list: the parts before it have not enough items.
* **`NestedWithin`** — a bound of the chains of lists of which each is read for the one before. With
  it the reading ends (`exists_read`), and a reading that ends has such a bound
  (`nestedWithin_of_read`).
-/

namespace Foundations.NestedReading

variable {ν ι : Type*}

/-- What a list answers. -/
inductive Answer (ν ι : Type*) where
  | items (xs : List ι)
  | parts (ns : List ν)

/-- What has been read: the items, and the lists that were visited. -/
structure Reading (ν ι : Type*) where
  items : List ι
  visited : List ν

/-- What is left to read behind some items. -/
def remaining (cap : ℕ) (items : List ι) (rest : List ν) : List ν :=
  if cap ≤ items.length then [] else rest

/-- The parts of a list, one after the other. -/
def readParts (cap : ℕ) (read : ν → Option (Reading ν ι)) :
    List ν → Reading ν ι → Option (Reading ν ι)
  | [], acc => some acc
  | part :: rest, acc =>
    match read part with
    | none => none
    | some r =>
      if cap ≤ (acc.items ++ r.items).length then
        some ⟨acc.items ++ r.items, acc.visited ++ r.visited⟩
      else readParts cap read rest ⟨acc.items ++ r.items, acc.visited ++ r.visited⟩

variable (answer : ν → Answer ν ι) (cap : ℕ)

/-- The reading of a list; `none` if the fuel does not last. -/
def read : ℕ → ν → Option (Reading ν ι)
  | 0, _ => none
  | fuel + 1, node =>
    match answer node with
    | .items xs => some ⟨xs, [node]⟩
    | .parts ns => readParts cap (read fuel) ns ⟨[], [node]⟩

/-- The reading of some lists, all of their items. -/
def readAll (fuel : ℕ) : List ν → Option (Reading ν ι)
  | [] => some ⟨[], []⟩
  | node :: rest =>
    match read answer cap fuel node, readAll fuel rest with
    | some r, some s => some ⟨r.items ++ s.items, r.visited ++ s.visited⟩
    | _, _ => none

/-- Some parts lead from the items before to those behind them. -/
inductive Lists : List ν → List ι → List ι → Prop
  | nil (acc : List ι) : Lists [] acc acc
  | items {node : ν} {rest : List ν} {xs acc out : List ι} (h : answer node = .items xs)
      (hrest : Lists (remaining cap (acc ++ xs) rest) (acc ++ xs) out) :
      Lists (node :: rest) acc out
  | parts {node : ν} {rest ns : List ν} {xs acc out : List ι} (h : answer node = .parts ns)
      (hns : Lists ns [] xs)
      (hrest : Lists (remaining cap (acc ++ xs) rest) (acc ++ xs) out) :
      Lists (node :: rest) acc out

/-- The items of a list. -/
def Yields (node : ν) (xs : List ι) : Prop :=
  answer node = .items xs ∨ ∃ ns, answer node = .parts ns ∧ Lists answer cap ns [] xs

/-- The items of some lists. -/
inductive YieldAll : List ν → List ι → Prop
  | nil : YieldAll [] []
  | cons {node : ν} {rest : List ν} {xs ys : List ι} (h : Yields answer cap node xs)
      (hrest : YieldAll rest ys) : YieldAll (node :: rest) (xs ++ ys)

/-- A part is read for a list. -/
def Follows (node part : ν) : Prop :=
  ∃ before rest xs, answer node = .parts (before ++ part :: rest) ∧
    Lists answer cap before [] xs ∧ xs.length < cap

/-- Each chain of lists of which one is read for the other has at most `d` of them. -/
def NestedWithin : ℕ → ν → Prop
  | 0, _ => False
  | d + 1, node => ∀ part, Follows answer cap node part → NestedWithin d part

variable {answer : ν → Answer ν ι} {cap : ℕ}

/-! ### The items of a list -/

variable {node : ν} {xs acc out : List ι} {ns nodes : List ν} {reader : ν → Option (Reading ν ι)}
  {r : Reading ν ι} {fuel d : ℕ}

theorem Lists.cons {rest : List ν} (h : Yields answer cap node xs)
    (hrest : Lists answer cap (remaining cap (acc ++ xs) rest) (acc ++ xs) out) :
    Lists answer cap (node :: rest) acc out := by
  rcases h with hitems | ⟨ns, hparts, hns⟩
  · exact .items hitems hrest
  · exact .parts hparts hns hrest

/-- Items are only added. -/
theorem Lists.exists_append (h : Lists answer cap ns acc out) : ∃ more, out = acc ++ more := by
  induction h with
  | nil acc => exact ⟨[], (List.append_nil acc).symm⟩
  | items _ _ ih =>
    obtain ⟨more, rfl⟩ := ih
    exact ⟨_, List.append_assoc _ _ _⟩
  | parts _ _ _ _ ih =>
    obtain ⟨more, rfl⟩ := ih
    exact ⟨_, List.append_assoc _ _ _⟩

/-- Some parts have the same items each time. -/
theorem Lists.unique {out' : List ι} (h : Lists answer cap ns acc out)
    (h' : Lists answer cap ns acc out') : out = out' := by
  induction h generalizing out' with
  | nil acc =>
    cases h'
    rfl
  | items hnode _ ih =>
    cases h' with
    | items hnode' hrest' =>
      obtain rfl := Answer.items.inj (hnode.symm.trans hnode')
      exact ih hrest'
    | parts hnode' _ _ => cases hnode.symm.trans hnode'
  | parts hnode _ _ ihns ih =>
    cases h' with
    | items hnode' _ => cases hnode.symm.trans hnode'
    | parts hnode' hns' hrest' =>
      obtain rfl := Answer.parts.inj (hnode.symm.trans hnode')
      obtain rfl := ihns hns'
      exact ih hrest'

theorem Yields.unique {xs' : List ι} (h : Yields answer cap node xs)
    (h' : Yields answer cap node xs') : xs = xs' := by
  rcases h with hitems | ⟨ns, hparts, hns⟩
  · rcases h' with hitems' | ⟨ns', hparts', -⟩
    · exact Answer.items.inj (hitems.symm.trans hitems')
    · cases hitems.symm.trans hparts'
  · rcases h' with hitems' | ⟨ns', hparts', hns'⟩
    · cases hparts.symm.trans hitems'
    · obtain rfl := Answer.parts.inj (hparts.symm.trans hparts')
      exact hns.unique hns'

/-- The last of some parts adds its own items. -/
theorem Lists.concat {part : ν} (h : Lists answer cap ns acc out) (hout : out.length < cap)
    (hpart : Yields answer cap part xs) :
    Lists answer cap (ns ++ [part]) acc (out ++ xs) := by
  have hremaining : ∀ {items out : List ι} {rest : List ν},
      Lists answer cap (remaining cap items rest) items out → out.length < cap →
        remaining cap items rest = rest ∧
        remaining cap items (rest ++ [part]) = rest ++ [part] := by
    intro items out rest hlists hlt
    obtain ⟨more, rfl⟩ := hlists.exists_append
    rw [List.length_append] at hlt
    have hfew : ¬ cap ≤ items.length := by omega
    exact ⟨if_neg hfew, if_neg hfew⟩
  induction h with
  | nil acc =>
    refine .cons hpart ?_
    rw [remaining, ite_self]
    exact .nil _
  | items hnode hrest ih =>
    obtain ⟨heq, heq'⟩ := hremaining hrest hout
    refine .items hnode ?_
    rw [List.append_eq, heq']
    rw [heq] at ih
    exact ih hout
  | parts hnode hns hrest _ ih =>
    obtain ⟨heq, heq'⟩ := hremaining hrest hout
    refine .parts hnode hns ?_
    rw [List.append_eq, heq']
    rw [heq] at ih
    exact ih hout

/-! ### What a reading says -/

theorem lists_of_readParts
    (hreader : ∀ part r, reader part = some r → Yields answer cap part r.items)
    {acc : Reading ν ι} (h : readParts cap reader ns acc = some r) :
    Lists answer cap ns acc.items r.items := by
  induction ns generalizing acc with
  | nil =>
    cases h
    exact .nil _
  | cons part rest ih =>
    rw [readParts] at h
    split at h
    · cases h
    · rename_i q hq
      refine .cons (hreader part q hq) ?_
      split_ifs at h with hcap
      · obtain rfl := Option.some.inj h
        rw [remaining, if_pos hcap]
        exact .nil _
      · rw [remaining, if_neg hcap]
        exact ih h

/-- A reading returns the items of the list. -/
theorem yields_of_read
    (h : read answer cap fuel node = some r) : Yields answer cap node r.items := by
  induction fuel generalizing node r with
  | zero => cases h
  | succ fuel ih =>
    rw [read] at h
    split at h
    · rename_i xs hitems
      obtain rfl := Option.some.inj h
      exact .inl hitems
    · rename_i ns hparts
      exact .inr ⟨ns, hparts, lists_of_readParts (fun _ _ => ih) h⟩

theorem visited_le_of_readParts {acc : Reading ν ι} (h : readParts cap reader ns acc = some r) :
    acc.visited.length ≤ r.visited.length := by
  induction ns generalizing acc with
  | nil =>
    cases h
    exact Nat.le_refl _
  | cons part rest ih =>
    rw [readParts] at h
    split at h
    · cases h
    · split_ifs at h with hcap
      · obtain rfl := Option.some.inj h
        rw [List.length_append]
        exact Nat.le_add_right _ _
      · have hle := ih h
        rw [List.length_append] at hle
        omega

/-- A part with few items before it has been read. -/
theorem exists_of_readParts
    (hreader : ∀ part r, reader part = some r → Yields answer cap part r.items)
    {before rest : List ν} {part : ν} {acc : Reading ν ι}
    (hbefore : Lists answer cap before acc.items xs) (hxs : xs.length < cap)
    (h : readParts cap reader (before ++ part :: rest) acc = some r) :
    ∃ q, reader part = some q ∧ acc.visited.length + q.visited.length ≤ r.visited.length := by
  induction before generalizing acc with
  | nil =>
    rw [List.nil_append, readParts] at h
    split at h
    · cases h
    · rename_i q hq
      refine ⟨q, hq, ?_⟩
      split_ifs at h with hcap
      · obtain rfl := Option.some.inj h
        exact Nat.le_of_eq List.length_append.symm
      · have hle := visited_le_of_readParts h
        rwa [List.length_append] at hle
  | cons node before ih =>
    rw [List.cons_append, readParts] at h
    split at h
    · cases h
    · rename_i q hq
      have hnext : ∃ ys, Yields answer cap node ys ∧
          Lists answer cap (remaining cap (acc.items ++ ys) before) (acc.items ++ ys) xs := by
        cases hbefore with
        | items hnode hrest => exact ⟨_, .inl hnode, hrest⟩
        | parts hnode hns hrest => exact ⟨_, .inr ⟨_, hnode, hns⟩, hrest⟩
      obtain ⟨ys, hys, hrest⟩ := hnext
      obtain rfl := hys.unique (hreader node q hq)
      obtain ⟨more, hmore⟩ := hrest.exists_append
      have hfew : ¬ cap ≤ (acc.items ++ q.items).length := by
        have hlength := congrArg List.length hmore
        rw [List.length_append] at hlength
        omega
      rw [if_neg hfew] at h
      rw [remaining, if_neg hfew] at hrest
      obtain ⟨p, hp, hle⟩ := ih hrest h
      rw [List.length_append] at hle
      exact ⟨p, hp, by omega⟩

/-! ### Bounds -/

theorem NestedWithin.mono {d' : ℕ} (h : NestedWithin answer cap d node)
    (hd : d ≤ d') : NestedWithin answer cap d' node := by
  induction d generalizing node d' with
  | zero => exact h.elim
  | succ d ih =>
    obtain ⟨d', rfl⟩ := Nat.exists_eq_add_of_le' (Nat.le_trans (Nat.le_add_left 1 d) hd)
    exact fun part hpart => ih (h part hpart) (Nat.le_of_succ_le_succ hd)

/-- **A reading that ends bounds the chains**, by the number of the lists that it visits. -/
theorem nestedWithin_of_read
    (h : read answer cap fuel node = some r) : NestedWithin answer cap r.visited.length node := by
  induction fuel generalizing node r with
  | zero => cases h
  | succ fuel ih =>
    rw [read] at h
    split at h
    · rename_i xs hitems
      obtain rfl := Option.some.inj h
      rintro part ⟨before, rest, ys, hparts, -⟩
      cases hitems.symm.trans hparts
    · rename_i ns hparts
      obtain ⟨k, hk⟩ : ∃ k, r.visited.length = k + 1 :=
        Nat.exists_eq_add_of_le' (visited_le_of_readParts h)
      rw [hk]
      rintro part ⟨before, rest, xs, hparts', hbefore, hxs⟩
      obtain rfl := Answer.parts.inj (hparts.symm.trans hparts')
      obtain ⟨q, hq, hle⟩ := exists_of_readParts (fun _ _ => yields_of_read) hbefore hxs h
      have hlt : 1 + q.visited.length ≤ r.visited.length := hle
      exact (ih hq).mono (by omega)

/-- The lists in a nest that is `d` deep, with at most `width` parts each. -/
def nestSize (width : ℕ) : ℕ → ℕ
  | 0 => 0
  | d + 1 => 1 + width * nestSize width d

theorem exists_readParts {bound : ℕ} {all : List ν}
    (hyields : ∀ part r, reader part = some r → Yields answer cap part r.items)
    (hreader : ∀ before part rest xs, all = before ++ part :: rest →
      Lists answer cap before [] xs → xs.length < cap →
        ∃ r, reader part = some r ∧ r.visited.length ≤ bound)
    (before rest : List ν) (hall : all = before ++ rest) (acc : Reading ν ι)
    (hbefore : Lists answer cap before [] acc.items) (hacc : acc.items.length < cap) :
    ∃ r, readParts cap reader rest acc = some r ∧
      r.visited.length ≤ acc.visited.length + rest.length * bound := by
  induction rest generalizing before acc with
  | nil => exact ⟨acc, rfl, Nat.le_add_right _ _⟩
  | cons part rest ih =>
    obtain ⟨q, hq, hle⟩ := hreader before part rest _ hall hbefore hacc
    rw [readParts, hq]
    simp only [List.length_cons, Nat.succ_mul]
    split_ifs with hcap
    · refine ⟨_, rfl, ?_⟩
      rw [List.length_append]
      omega
    · have hnext := hbefore.concat hacc (hyields part q hq)
      obtain ⟨r, hr, hle'⟩ := ih (before ++ [part]) (by simp [hall])
        ⟨acc.items ++ q.items, acc.visited ++ q.visited⟩ hnext (Nat.not_le.1 hcap)
      refine ⟨r, hr, ?_⟩
      simp only [List.length_append] at hle'
      omega

/-- **With a bound of the chains a reading ends**, and the bound says how many lists it visits. -/
theorem exists_read {width : ℕ} (hcap : 0 < cap)
    (hwidth : ∀ node ns, answer node = .parts ns → ns.length ≤ width)
    (h : NestedWithin answer cap d node) :
    ∃ r, read answer cap d node = some r ∧ r.visited.length ≤ nestSize width d := by
  induction d generalizing node with
  | zero => exact h.elim
  | succ d ih =>
    rw [read, nestSize]
    split
    · exact ⟨_, rfl, Nat.le_add_right 1 _⟩
    · rename_i ns hparts
      obtain ⟨r, hr, hle⟩ := exists_readParts (fun _ _ => yields_of_read)
        (fun before part rest xs hns hbefore hxs =>
          ih (h part ⟨before, rest, xs, hns ▸ hparts, hbefore, hxs⟩))
        [] ns rfl ⟨[], [node]⟩ (.nil []) hcap
      exact ⟨r, hr, Nat.le_trans hle
        (Nat.add_le_add_left (Nat.mul_le_mul_right _ (hwidth node ns hparts)) 1)⟩

/-! ### Several lists -/

theorem YieldAll.unique {xs' : List ι} (h : YieldAll answer cap nodes xs)
    (h' : YieldAll answer cap nodes xs') : xs = xs' := by
  induction h generalizing xs' with
  | nil =>
    cases h'
    rfl
  | cons hnode _ ih =>
    cases h' with
    | cons hnode' hrest' => rw [hnode.unique hnode', ih hrest']

theorem yieldAll_of_readAll
    (h : readAll answer cap fuel nodes = some r) : YieldAll answer cap nodes r.items := by
  induction nodes generalizing r with
  | nil =>
    cases h
    exact .nil
  | cons node rest ih =>
    rw [readAll] at h
    split at h
    · rename_i hnode hrest
      obtain rfl := Option.some.inj h
      exact .cons (yields_of_read hnode) (ih hrest)
    · cases h

theorem nestedWithin_of_readAll
    (h : readAll answer cap fuel nodes = some r) (hnode : node ∈ nodes) :
    NestedWithin answer cap r.visited.length node := by
  induction nodes generalizing r with
  | nil => cases hnode
  | cons first rest ih =>
    rw [readAll] at h
    split at h
    · rename_i q s hfirst hrest
      obtain rfl := Option.some.inj h
      rw [List.length_append]
      cases hnode with
      | head => exact (nestedWithin_of_read hfirst).mono (Nat.le_add_right _ _)
      | tail _ hmem => exact (ih hrest hmem).mono (Nat.le_add_left _ _)
    · cases h

theorem exists_readAll {width : ℕ} (hcap : 0 < cap)
    (hwidth : ∀ node ns, answer node = .parts ns → ns.length ≤ width)
    (h : ∀ node ∈ nodes, NestedWithin answer cap d node) :
    ∃ r, readAll answer cap d nodes = some r ∧
      r.visited.length ≤ nodes.length * nestSize width d := by
  induction nodes with
  | nil => exact ⟨⟨[], []⟩, rfl, Nat.zero_le _⟩
  | cons node rest ih =>
    obtain ⟨q, hq, hqle⟩ := exists_read hcap hwidth (h node List.mem_cons_self)
    obtain ⟨s, hs, hsle⟩ := ih fun node hnode => h node (List.mem_cons_of_mem _ hnode)
    refine ⟨⟨q.items ++ s.items, q.visited ++ s.visited⟩, by rw [readAll, hq, hs], ?_⟩
    rw [List.length_append, List.length_cons, Nat.succ_mul]
    omega

end Foundations.NestedReading
