import Mathlib.Data.Int.Init
import Mathlib.Data.Int.Notation
import Mathlib.Order.Basic

/-!
# Quantities that change now and then

A quantity over discrete time, such as the offset of a time zone, is constant but for sudden
changes, and these are far apart.

* **`ChangesAt`, `Sparse`** — the moments of change, and that any two are at least a gap apart.
* **`Sparse.before`, `Sparse.after`** — on each side of a change the quantity is constant for as
  long as the gap.
* **`Sparse.two_rounds`** — a clock that is ahead by the quantity is read back by two corrections,
  if what it shows it shows once and the gap is twice as large as the quantity.
* **`Sparse.clock_mono`**, **`Sparse.seen_before`** — such a clock falls back by one step at most,
  and shows only what it has shown before as it does.
-/

namespace Foundations

/-- The quantity is another one than a moment before. -/
def ChangesAt (f : ℤ → ℤ) (c : ℤ) : Prop := f c ≠ f (c - 1)

/-- Changes are at least `gap` apart. -/
def Sparse (gap : ℤ) (f : ℤ → ℤ) : Prop :=
  ∀ c c', ChangesAt f c → ChangesAt f c' → c < c' → gap ≤ c' - c

variable {f : ℤ → ℤ} {gap c s t : ℤ}

/-- Without a change in between, the quantity is the same. -/
theorem eq_of_no_change (hst : s ≤ t) (h : ∀ c, s < c → c ≤ t → ¬ ChangesAt f c) : f t = f s := by
  induction t, hst using Int.leInduction with
  | base => rfl
  | succ t hst ih =>
    have hsame : f (t + 1) = f t := by
      have hno := h (t + 1) (by omega) (by omega)
      rw [ChangesAt, not_not, show t + 1 - 1 = t by omega] at hno
      exact hno
    exact hsame.trans (ih fun c hc hct => h c hc (by omega))

/-- If the quantity is another one, it has changed in between. -/
theorem exists_change (hst : s ≤ t) (h : f t ≠ f s) : ∃ c, s < c ∧ c ≤ t ∧ ChangesAt f c := by
  by_contra hno
  exact h (eq_of_no_change hst fun c hsc hct hc => hno ⟨c, hsc, hct, hc⟩)

namespace Sparse

/-- Before a change the quantity is what it was just before. -/
theorem before (h : Sparse gap f) (hc : ChangesAt f c) (hs : c - gap ≤ s) (hsc : s < c) :
    f s = f (c - 1) := by
  refine (eq_of_no_change (by omega) fun c' hsc' hc' hchange => ?_).symm
  have := h c' c hchange hc (by omega)
  omega

/-- After a change the quantity is what it has become. -/
theorem after (h : Sparse gap f) (hc : ChangesAt f c) (hcs : c ≤ s) (hs : s < c + gap) :
    f s = f c := by
  refine eq_of_no_change hcs fun c' hcc' hc' hchange => ?_
  have := h c c' hc hchange hcc'
  omega

/-- **Two rounds of correction suffice**: at `t` the clock shows `t + f t`, and at no other moment.
Corrected by the quantity at the moment that is named like this reading, the reading gives a moment
at which the quantity is the same as at `t`. -/
theorem two_rounds {bound : ℤ} (h : Sparse gap f) (hgap : 2 * bound ≤ gap)
    (hbound : ∀ s, -bound ≤ f s ∧ f s ≤ bound) (honce : ∀ s, s + f s = t + f t → s = t) :
    f (t + f t - f (t + f t)) = f t := by
  generalize hw : t + f t = w at honce
  have ht := hbound t
  have hfw := hbound w
  by_cases hsame : f w = f t
  · rw [hsame, show w - f t = t by omega]
  rcases Int.lt_or_le t w with htw | hwt
  · obtain ⟨c, htc, hcw, hc⟩ := exists_change (Int.le_of_lt htw) hsame
    have ha := h.before hc (by omega) htc
    have hb := h.after hc hcw (by omega)
    by_cases hlt : w - f w < c
    · rw [ha]
      exact h.before hc (by omega) hlt
    · have hb' := h.after hc (show c ≤ w - f w by omega) (by omega)
      have := honce (w - f w) (by omega)
      omega
  · obtain ⟨c, hwc, hct, hc⟩ := exists_change hwt (Ne.symm hsame)
    have ha := h.before hc (by omega) hwc
    have hb := h.after hc hct (by omega)
    by_cases hle : c ≤ w - f w
    · rw [hb]
      exact h.after hc hle (by omega)
    · have ha' := h.before hc (by omega) (show w - f w < c by omega)
      have := honce (w - f w) (by omega)
      omega

/-! ### Clocks that are ahead by the quantity -/

variable {step : ℤ}

/-- Within a gap, the quantity changes once at most. -/
theorem diff_le (h : Sparse gap f) (hstep : ∀ c, -step ≤ f c - f (c - 1) ∧ f c - f (c - 1) ≤ step)
    (hst : s ≤ t) (hle : t ≤ s + gap) : -step ≤ f t - f s ∧ f t - f s ≤ step := by
  by_cases hsame : f t = f s
  · have := hstep t
    omega
  · obtain ⟨c, hsc, hct, hc⟩ := exists_change hst hsame
    rw [h.before hc (by omega) hsc, h.after hc hct (by omega)]
    exact hstep c

/-- The clock never falls back by more than one step. -/
theorem clock_mono (h : Sparse gap f)
    (hstep : ∀ c, -step ≤ f c - f (c - 1) ∧ f c - f (c - 1) ≤ step) (hgap : step ≤ gap)
    (hpos : 0 < gap) (hst : s ≤ t) : s + f s ≤ t + f t + step := by
  induction hn : (t - s).toNat using Nat.strongRecOn generalizing t with
  | ind n ih =>
    by_cases hle : t ≤ s + gap
    · have := h.diff_le hstep hst hle
      omega
    · have hbefore := ih (t - gap - s).toNat (by omega) (t := t - gap) (by omega) rfl
      have := h.diff_le hstep (show t - gap ≤ t by omega) (by omega)
      omega

/-- After a gap the clock is later. -/
theorem clock_lt (h : Sparse gap f)
    (hstep : ∀ c, -step ≤ f c - f (c - 1) ∧ f c - f (c - 1) ≤ step) (hgap : 2 * step < gap)
    (hpos : 0 < gap) (hst : s + gap ≤ t) : s + f s < t + f t := by
  have hbefore := h.clock_mono hstep (by omega) hpos (show s ≤ t - gap by omega)
  have := h.diff_le hstep (show t - gap ≤ t by omega) (by omega)
  omega

/-- What the clock shows after it has fallen back, it has shown before. -/
theorem seen_before (h : Sparse gap f)
    (hstep : ∀ c, -step ≤ f c - f (c - 1) ∧ f c - f (c - 1) ≤ step) (hgap : 2 * step < gap)
    (hpos : 0 < gap) (hst : s ≤ t) (hback : t + f t ≤ s + f s) :
    ∃ s' ≤ s, s' + f s' = t + f t := by
  by_cases hsame : f t = f s
  · exact ⟨s, Int.le_refl s, by omega⟩
  have hnear : t < s + gap :=
    Int.lt_of_not_ge fun hfar => absurd (h.clock_lt hstep hgap hpos hfar) (by omega)
  have hdiff := h.diff_le hstep hst (by omega)
  obtain ⟨c, hsc, hct, hc⟩ := exists_change hst hsame
  have hs := h.before hc (by omega) hsc
  have hs' := h.before hc (show c - gap ≤ t + f t - f s by omega) (by omega)
  exact ⟨t + f t - f s, by omega, by omega⟩

end Sparse

end Foundations
