import Mathlib.Data.Int.ModEq
import Mathlib.Data.Nat.Bitwise
import Mathlib.Logic.Function.Basic
import Mathlib.Tactic.Common

/-!
# A window of a log in a ring of slots

The entries of a growing log are written into `2 ^ k` slots, entry number `j` into slot
`j &&& (2 ^ k - 1)`.

* `Holds` — the slots still hold every entry from number `lo` on.
* `Holds.write`, `Holds.push`, `Holds.mono` — writing the next entry does no harm as long as the
  window is not full, appending it to the log extends the window, and the window may shrink.
* `slot_ne` — two entries less than `2 ^ k` apart have different slots.
-/

namespace RingBuffer

variable {α : Type*}

/-- The slot of entry `j` in a ring with the mask `mask`. -/
def slot (mask j : ℕ) : ℕ := j &&& mask

/-- The slots hold the entries of `log` from number `lo` on. -/
def Holds (mask : ℕ) (slots : ℕ → α) (log : List α) (lo : ℕ) : Prop :=
  ∀ j a, lo ≤ j → log[j]? = some a → slots (slot mask j) = a

theorem slot_eq_mod (k j : ℕ) : slot (2 ^ k - 1) j = j % 2 ^ k := Nat.and_two_pow_sub_one_eq_mod j k

theorem slot_ne {k i j : ℕ} (hlt : i < j) (hnear : j < i + 2 ^ k) :
    slot (2 ^ k - 1) i ≠ slot (2 ^ k - 1) j := by
  rw [slot_eq_mod, slot_eq_mod]
  intro h
  have hdvd : 2 ^ k ∣ j - i := (Nat.modEq_iff_dvd' hlt.le).mp h
  have hle := Nat.le_of_dvd (by omega) hdvd
  omega

variable {k lo : ℕ} {mask : ℕ} {slots : ℕ → α} {log : List α}

theorem holds_nil (mask : ℕ) (slots : ℕ → α) (lo : ℕ) : Holds mask slots [] lo := by
  intro j a _ h
  simp at h

theorem Holds.mono (h : Holds mask slots log lo) {lo' : ℕ} (hle : lo ≤ lo') :
    Holds mask slots log lo' :=
  fun j a hj => h j a (hle.trans hj)

/-- Writing the next entry overwrites nothing of a window that is not full. -/
theorem Holds.write (h : Holds (2 ^ k - 1) slots log lo) (hroom : log.length < lo + 2 ^ k)
    (a : α) :
    Holds (2 ^ k - 1) (Function.update slots (slot (2 ^ k - 1) log.length) a) log lo := by
  intro j b hj hb
  have hjlt : j < log.length := (List.getElem?_eq_some_iff.mp hb).1
  rw [Function.update_of_ne (slot_ne hjlt (by omega))]
  exact h j b hj hb

/-- Once its slot is written, the next entry can join the log. -/
theorem Holds.push (h : Holds mask slots log lo) {a : α}
    (ha : slots (slot mask log.length) = a) : Holds mask slots (log ++ [a]) lo := by
  intro j b hj hb
  by_cases hlt : j < log.length
  · rw [List.getElem?_append_left hlt] at hb
    exact h j b hj hb
  · have hjlen := (List.getElem?_eq_some_iff.mp hb).1
    simp only [List.length_append, List.length_singleton] at hjlen
    obtain rfl : j = log.length := by omega
    simp only [List.getElem?_concat_length, Option.some.injEq] at hb
    exact ha.trans hb

/-- The entry a reader finds at the low end of the window. -/
theorem Holds.read (h : Holds mask slots log lo) (hlt : lo < log.length) :
    slots (slot mask lo) = log[lo] :=
  h lo _ le_rfl (List.getElem?_eq_getElem hlt)

end RingBuffer
