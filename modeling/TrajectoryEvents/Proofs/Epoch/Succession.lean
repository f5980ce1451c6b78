import Mathlib.Logic.Function.Iterate
import TrajectoryEvents.Proofs.Epoch.Duration

/-!
# One epoch after another

The scan of a search falls back on the next representable epoch where a step would be lost. That is
the very next epoch from every instant but the last, across zero, from one binade into the next, and
from and to the infinities. Repeating it therefore leads from any instant to any later one, through
all epochs between them.

## Main definitions

* `Epoch.Traverses x y n`: counting up from `x`, the `n`-th epoch is `y`, and the ones before it are
  the epochs between `x` and `y`, each of them once and in their order.

## Main results

* `Epoch.place_iterate_nextRepresentable`: the `n`-th epoch stands `n` places further.
* `Epoch.traverses_remaining`: a later epoch is reached in as many steps as there are epochs left.
* `Epoch.nextRepresentable_isSuccessor`: both, for all doubles.
-/

namespace TrajectoryEvents.Epoch

open Binary64

/-- Counting up from `x`, the `n`-th epoch is `y`, and the epochs before it are the ones between `x`
and `y`. Equality of epochs is numerical, since counting up from below passes negative zero. -/
structure Traverses (x y : Epoch) (n : ℕ) : Prop where
  /-- The count ends at `y`. -/
  arrives : (nextRepresentable^[n] x == y) = true
  /-- It does not reach `y` any earlier. -/
  before : ∀ k < n, nextRepresentable^[k] x < y
  /-- It goes up all the time. -/
  increasing : ∀ j k, j < k → k ≤ n → nextRepresentable^[j] x < nextRepresentable^[k] x
  /-- It passes through every epoch on its way. -/
  covers : ∀ z, x < z → z < y → ∃ k, 0 < k ∧ k < n ∧ (nextRepresentable^[k] x == z) = true

variable {x y : Epoch}

/-- NaN and positive infinity have no next epoch. -/
theorem nextRepresentable_eq_self (h : x.isNaN = true ∨ x.seconds = infinity) :
    x.nextRepresentable = x := by
  have hnext : next x.seconds = x.seconds := by
    rcases h with h | h
    · exact next_of_isNaN h
    · rw [h]
      decide
  rw [nextRepresentable, hnext]

/-- The instants before positive infinity are the ones at the places before its own. -/
theorem lt_infinity_iff (hn : x.isNaN = false) : x < ⟨infinity⟩ ↔ x.place < top := by
  have hend : (⟨infinity⟩ : Epoch).isNaN = false := isNaN_infinity
  have hp : (⟨infinity⟩ : Epoch).place = top := place_infinity
  rw [lt_iff_place hn hend, hp]

/-- Every instant comes before positive infinity, which stands alone at the end of the line. -/
theorem lt_infinity (hn : x.isNaN = false) (h : x.seconds ≠ infinity) : x < ⟨infinity⟩ := by
  rw [lt_infinity_iff hn]
  by_contra hle
  have hx : x.seconds = store (.infinity .positive) := eq_infinity hn (not_lt.1 hle)
  exact h hx

/-- The next epoch is adjacent. -/
theorem adjacent_nextRepresentable (h : x < y) : Adjacent x x.nextRepresentable := by
  obtain ⟨hn, hp⟩ := place_nextRepresentable h
  exact (adjacent_iff (lt_iff.1 h).1 hn).2 hp

/-- Counting up goes one place further each time. -/
theorem place_iterate_nextRepresentable (hx : x.isNaN = false) {n : ℕ} (hn : x.place + n ≤ top) :
    (nextRepresentable^[n] x).isNaN = false ∧ (nextRepresentable^[n] x).place = x.place + n := by
  induction n with
  | zero => simpa using hx
  | succ n ih =>
    obtain ⟨hnan, hplace⟩ := ih (by omega)
    have hlt : nextRepresentable^[n] x < ⟨infinity⟩ := by
      rw [lt_infinity_iff hnan]
      omega
    obtain ⟨hnan', hnext⟩ := place_nextRepresentable hlt
    rw [Function.iterate_succ_apply', hnext, hplace]
    exact ⟨hnan', by push_cast; ring⟩

/-- Counting up reaches a later epoch in as many steps as there are epochs left before it. -/
theorem traverses_remaining (h : x < y) : Traverses x y (x.remaining y) := by
  obtain ⟨hx, hy, hxy⟩ := lt_iff.1 h
  have htop : y.place ≤ top := (place_bounds hy).2
  have hcount : x.place + x.remaining y = y.place := by
    unfold remaining
    omega
  -- on the way every epoch is an instant, and stands at the place that has been counted
  have hway (k : ℕ) (hk : k ≤ x.remaining y) :=
    place_iterate_nextRepresentable hx (n := k) (by omega)
  constructor
  case arrives =>
    obtain ⟨hnan, hplace⟩ := hway _ le_rfl
    rw [beq_iff_place]
    exact ⟨hnan, hy, by omega⟩
  case before =>
    intro k hk
    obtain ⟨hnan, hplace⟩ := hway k (by omega)
    rw [lt_iff_place hnan hy]
    omega
  case increasing =>
    intro j k hjk hk
    obtain ⟨hj, hplacej⟩ := hway j (by omega)
    obtain ⟨hk, hplacek⟩ := hway k hk
    rw [lt_iff_place hj hk]
    omega
  case covers =>
    intro z hxz hzy
    obtain ⟨-, hz, hxz⟩ := lt_iff.1 hxz
    obtain ⟨-, -, hzy⟩ := lt_iff.1 hzy
    obtain ⟨hnan, hplace⟩ := hway (x.remaining z) (by unfold remaining; omega)
    have hcountz : x.place + x.remaining z = z.place := by
      unfold remaining
      omega
    refine ⟨x.remaining z, by omega, by omega, ?_⟩
    rw [beq_iff_place]
    exact ⟨hnan, hz, by omega⟩

/-- The next representable epoch is the successor on the time line. NaN and positive infinity are
left as they are; from any other epoch it is the very next one. Repeating it leads from any instant
to any later one in finitely many steps, through every epoch between them in increasing order. -/
theorem nextRepresentable_isSuccessor :
    (∀ x : Epoch, x.isNaN = true ∨ x.seconds = infinity → x.nextRepresentable = x) ∧
      (∀ x : Epoch, x.isNaN = false → x.seconds ≠ infinity → Adjacent x x.nextRepresentable) ∧
      ∀ x y : Epoch, x < y → ∃ n, Traverses x y n := by
  refine ⟨fun x h => nextRepresentable_eq_self h, fun x hn h => ?_, fun x y h => ?_⟩
  · exact adjacent_nextRepresentable (lt_infinity hn h)
  · exact ⟨_, traverses_remaining h⟩

/-- Negative infinity has a next epoch and positive infinity has none, and from the last epoch below
zero the count passes zero. -/
theorem nextRepresentable_isSuccessor_zero :
    nextRepresentable ⟨infinity⟩ = ⟨infinity⟩ ∧
      Adjacent ⟨-infinity⟩ (nextRepresentable ⟨-infinity⟩) ∧
      (⟨-.ofBits 1⟩ : Epoch) < ⟨.ofBits 1⟩ ∧ ∃ n, Traverses ⟨-.ofBits 1⟩ ⟨.ofBits 1⟩ n := by
  obtain ⟨hlast, hnext, hcount⟩ := nextRepresentable_isSuccessor
  have hlt : (⟨-.ofBits 1⟩ : Epoch) < ⟨.ofBits 1⟩ := by decide
  exact ⟨hlast _ (.inr rfl), hnext _ (by decide) (by decide), hlt, hcount _ _ hlt⟩

end TrajectoryEvents.Epoch
