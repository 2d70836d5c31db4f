import Mathlib.Data.List.Induction
import Mathlib.Data.List.Pairwise
import Mathlib.Data.Nat.ModEq
import Mathlib.Logic.Function.Basic
import Mathlib.Tactic.Common

/-!
# Counters that are used again

A key is counted in the cell `key % n`. The cell is shared by all keys with that remainder and
counts one of them at a time: the first entry of another key starts it again from zero.

* `touch` — one key is counted; `touches` — a list of keys, in order.
* `Recent` — every key is less than `n` below the keys before it, so a cell never goes back to a
  key it has left.
* `read_eq_count` — a cell read at a key that no counted key exceeds has the number of its entries.
-/

namespace Recycled

structure Cell where
  key : ℕ := 0
  count : ℕ := 0
  deriving DecidableEq

/-- Count one entry of the key. -/
def touch (n : ℕ) (cells : ℕ → Cell) (key : ℕ) : ℕ → Cell :=
  Function.update cells (key % n)
    ⟨key, (if (cells (key % n)).key = key then (cells (key % n)).count else 0) + 1⟩

/-- Count the keys in order, all cells unused at first. -/
def touches (n : ℕ) (keys : List ℕ) : ℕ → Cell := keys.foldl (touch n) fun _ => {}

/-- What is read at a key: its count, or nothing when the cell counts another key. -/
def read (n : ℕ) (cells : ℕ → Cell) (key : ℕ) : ℕ :=
  if (cells (key % n)).key = key then (cells (key % n)).count else 0

/-- Each key is less than `n` below the keys before it. -/
def Recent (n : ℕ) (keys : List ℕ) : Prop := keys.Pairwise fun earlier key => earlier < key + n

instance (n : ℕ) (keys : List ℕ) : Decidable (Recent n keys) := by
  unfold Recent
  infer_instance

/-- The keys that share cell `r`. -/
def sharing (n r : ℕ) (keys : List ℕ) : List ℕ := keys.filter (· % n = r)

/-- A cell counts the largest key it was used for, and all entries of it. -/
structure Cell.Current (cell : Cell) (keys : List ℕ) : Prop where
  unused : keys = [] → cell = {}
  mem : keys ≠ [] → cell.key ∈ keys
  largest : ∀ key ∈ keys, key ≤ cell.key
  count : cell.count = keys.count cell.key

variable {n : ℕ}

/-- A smaller key of the same cell is at least `n` smaller. -/
theorem add_le_of_mod_eq {a b : ℕ} (h : a % n = b % n) (hlt : a < b) : a + n ≤ b := by
  have hdvd : n ∣ b - a := (Nat.modEq_iff_dvd' hlt.le).mp h
  have hle := Nat.le_of_dvd (by omega) hdvd
  omega

theorem sharing_append (r : ℕ) (keys keys' : List ℕ) :
    sharing n r (keys ++ keys') = sharing n r keys ++ sharing n r keys' :=
  List.filter_append ..

theorem mem_sharing {r key : ℕ} {keys : List ℕ} :
    key ∈ sharing n r keys ↔ key ∈ keys ∧ key % n = r := by
  simp [sharing]

theorem touches_concat (keys : List ℕ) (key : ℕ) :
    touches n (keys ++ [key]) = touch n (touches n keys) key := by
  simp [touches]

/-- A cell takes the next entry of its key, or the first entry of a larger key. -/
theorem Cell.Current.touch {cell : Cell} {keys : List ℕ} (h : cell.Current keys) {key : ℕ}
    (hle : cell.key ≤ key ∨ keys = []) :
    Cell.Current ⟨key, (if cell.key = key then cell.count else 0) + 1⟩ (keys ++ [key]) := by
  have hbelow : ∀ k ∈ keys, k ≤ key := by
    intro k hk
    rcases hle with hle | rfl
    · exact (h.largest k hk).trans hle
    · cases hk
  refine ⟨fun hnil => by simp at hnil, fun _ => by simp, ?_, ?_⟩
  · intro k hk
    rcases List.mem_append.mp hk with hk | hk
    · exact hbelow k hk
    · exact (List.mem_singleton.mp hk).le
  · have hcount : (if cell.key = key then cell.count else 0) = keys.count key := by
      by_cases heq : cell.key = key
      · rw [if_pos heq, h.count, heq]
      · rw [if_neg heq, List.count_eq_zero_of_not_mem]
        -- A key that was counted before is not larger than the key of the cell.
        intro hmem
        rcases hle with hle | rfl
        · exact heq (le_antisymm hle (h.largest key hmem))
        · cases hmem
    simp only [hcount, List.count_append, List.count_singleton_self]

/-- Every cell counts the largest of its keys. -/
theorem current_touches {keys : List ℕ} (hrecent : Recent n keys) (r : ℕ) :
    (touches n keys r).Current (sharing n r keys) := by
  induction keys using List.reverseRecOn with
  | nil => exact ⟨fun _ => rfl, fun h => absurd rfl h, fun _ h => (by cases h), rfl⟩
  | append_singleton keys key ih =>
    obtain ⟨hkeys, -, hlast⟩ := List.pairwise_append.mp hrecent
    have hcur := ih hkeys
    rw [touches_concat, sharing_append]
    by_cases hr : key % n = r
    · subst hr
      rw [Recycled.touch, Function.update_self]
      have hone : sharing n (key % n) [key] = [key] := by simp [sharing]
      rw [hone]
      refine hcur.touch ?_
      by_cases hnil : sharing n (key % n) keys = []
      · exact .inr hnil
      · obtain ⟨hmem, hmod⟩ := mem_sharing.mp (hcur.mem hnil)
        have hnear := hlast _ hmem key (List.mem_singleton_self key)
        refine .inl (not_lt.mp fun hlt => ?_)
        have hfar := add_le_of_mod_eq hmod.symm hlt
        omega
    · have hnone : sharing n r [key] = [] := by simp [sharing, hr]
      rw [Recycled.touch, Function.update_of_ne (Ne.symm hr), hnone, List.append_nil]
      exact hcur

/-- **A cell counts all entries of the key it is read at.** The keys may come out of order by less
than `n`, and none is after the key of the reading. -/
theorem read_eq_count {keys : List ℕ} (hrecent : Recent n keys) {now : ℕ}
    (hnow : ∀ key ∈ keys, key ≤ now) : read n (touches n keys) now = keys.count now := by
  have hcur := current_touches hrecent (now % n)
  have hcount : (sharing n (now % n) keys).count now = keys.count now :=
    List.count_filter (by simp)
  rw [← hcount, read]
  by_cases heq : (touches n keys (now % n)).key = now
  · rw [if_pos heq, hcur.count, heq]
  · rw [if_neg heq, eq_comm, List.count_eq_zero]
    intro hmem
    have hkey := hcur.mem (List.ne_nil_of_mem hmem)
    exact heq (le_antisymm (hnow _ (mem_sharing.mp hkey).1) (hcur.largest now hmem))

end Recycled
