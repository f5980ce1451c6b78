import TrajectoryEvents.Decimal.Style

/-!
# Epochs

An epoch is an instant on the simulation time line, given in seconds past a reference instant. Any
double is an epoch, NaN and the infinities included; epochs are compared as their seconds are.

* `Epoch.remaining` counts the epochs from one instant up to another.
* `Epoch.remaining_lt`: it shrinks whenever the first of the two instants moves forward.
* `Epoch.place_nextRepresentable`: the next representable epoch is the very next one.
-/

namespace TrajectoryEvents

/-- An instant on the simulation time line. -/
structure Epoch where
  /-- Seconds past the reference instant. -/
  seconds : Float
deriving DecidableEq

namespace Epoch

/-- The reference instant. -/
def reference : Epoch := ⟨0.0⟩

instance : Inhabited Epoch := ⟨reference⟩

instance : LT Epoch := ⟨fun a b => a.seconds < b.seconds⟩

instance : LE Epoch := ⟨fun a b => a.seconds ≤ b.seconds⟩

/-- Numerical equality: both zeros are one instant, and NaN is none. -/
instance : BEq Epoch := ⟨fun a b => a.seconds == b.seconds⟩

instance (a b : Epoch) : Decidable (a < b) := inferInstanceAs (Decidable (a.seconds < b.seconds))

instance (a b : Epoch) : Decidable (a ≤ b) := inferInstanceAs (Decidable (a.seconds ≤ b.seconds))

/-- The epoch `dt` seconds later; a negative duration goes back in time. -/
def shiftedBy (a : Epoch) (dt : Float) : Epoch := ⟨a.seconds + dt⟩

/-- The signed duration from `b` to `a`, in seconds. -/
def durationFrom (a b : Epoch) : Float := a.seconds - b.seconds

/-- The earliest representable epoch after `a`. Far from the reference instant, neighbouring
epochs are further apart. -/
def nextRepresentable (a : Epoch) : Epoch := ⟨Binary64.next a.seconds⟩

/-- An epoch as messages show it. -/
def text (a : Epoch) : String := "t+" ++ plainText a.seconds ++ "s"

instance : ToString Epoch := ⟨text⟩

/-! ### Counting epochs -/

/-- The place of an epoch on the line of doubles. -/
def place (a : Epoch) : Int := Binary64.place a.seconds

/-- The number of epochs after `a`, up to and including `b`. -/
def remaining (a b : Epoch) : Nat := (b.place - a.place).toNat

/-- Whether an epoch is no instant at all. -/
def isNaN (a : Epoch) : Bool := a.seconds.isNaN

theorem lt_iff {a b : Epoch} : a < b ↔ a.isNaN = false ∧ b.isNaN = false ∧ a.place < b.place :=
  Binary64.lt_iff

theorem le_iff {a b : Epoch} : a ≤ b ↔ a.isNaN = false ∧ b.isNaN = false ∧ a.place ≤ b.place :=
  Binary64.le_iff

/-- An epoch that is not at or before an instant of the time line stands further on, NaN included,
since NaN stands beyond every instant. -/
theorem place_lt_of_not_le {a b : Epoch} (ha : a.isNaN = false) (h : ¬ b ≤ a) :
    a.place < b.place := by
  cases hb : b.isNaN
  · have : ¬ b.place ≤ a.place := fun hp => h (le_iff.2 ⟨hb, ha, hp⟩)
    omega
  · have := (Binary64.place_bounds ha).2
    have := Binary64.place_of_isNaN hb
    simp only [place]
    omega

/-- The epoch after an instant that is not the last one is an instant and the very next one. -/
theorem place_nextRepresentable {a b : Epoch} (h : a < b) :
    a.nextRepresentable.isNaN = false ∧ a.nextRepresentable.place = a.place + 1 := by
  obtain ⟨ha, hb, hlt⟩ := lt_iff.1 h
  have := (Binary64.place_bounds hb).2
  exact Binary64.place_next ha (Int.lt_of_lt_of_le hlt this)

/-- Moving the first of two instants forward leaves fewer epochs between them. -/
theorem remaining_lt {a b finish : Epoch} (h : a < finish) (hb : a.place < b.place) :
    b.remaining finish < a.remaining finish := by
  have := (lt_iff.1 h).2.2
  simp only [remaining]
  omega

end Epoch

end TrajectoryEvents
