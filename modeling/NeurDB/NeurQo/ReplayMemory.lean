import Mathlib.Algebra.BigOperators.Ring.List
import Mathlib.Algebra.Order.BigOperators.Group.List
import Mathlib.Algebra.Order.Field.Rat
import Mathlib.Tactic.Linarith

/-!
# Sampling from the replay memory

The join order expert trains on batches that `ReplayMemory.sample` (`mcts_based_expert.py`) draws
from its memory: one half uniformly, the other by weight. A draw is given by the probability of each
index, in exact arithmetic; `random.choices` and `random.randint` are taken at their word.

Neither half is drawn as intended (`sampling_iff`). The uniform half has the size of the half where
the size of the memory belongs. The weighted half hands running sums to `random.choices`, which
takes them for weights, so that a later transition is drawn more often.
-/

namespace NeurDB.NeurQo

open List

structure Transition (φ : Type) where
  features : φ
  weight : ℚ

/-- The probability of each index. -/
abbrev Draw := ℕ → ℚ

/-- `random.choices` from the indices of the weights. -/
def choices (weights : List ℚ) : Draw := fun i => weights.getD i 0 / weights.sum

/-- `random.randint`, both ends included. -/
def randint (a b : ℕ) : Draw := fun i => if a ≤ i ∧ i ≤ b then 1 / (b - a + 1 : ℕ) else 0

/-- The first loop of `weight_sample`: the running sums, and the last of them. -/
def runningSums (currentWeight : ℚ) : List ℚ → List ℚ × ℚ
  | [] => ([], currentWeight)
  | w :: ws =>
    let (sums, last) := runningSums (currentWeight + w) ws
    ((currentWeight + w) :: sums, last)

variable {φ : Type}

/-- `weight_sample`. -/
def weightSample (memory : List (Transition φ)) (batchSize : ℕ) : List Draw :=
  let (weight, currentWeight) := runningSums 0 (memory.map Transition.weight)
  replicate batchSize (choices (weight.map (· / currentWeight)))

/-- `sample`. A small memory is returned as it is. -/
def sample (memory : List (Transition φ)) (batchSize : ℕ) : List Draw :=
  if batchSize < memory.length then
    let normalBatch := batchSize / 2
    replicate normalBatch (randint 0 (normalBatch - 1)) ++
      weightSample memory (batchSize - normalBatch)
  else (range memory.length).map fun i j => if j = i then 1 else 0

/-- The draws of the first half are uniform over the memory. -/
def UniformHalf (memory : List (Transition φ)) (batchSize : ℕ) : Prop :=
  ∀ d ∈ (sample memory batchSize).take (batchSize / 2), ∀ i < memory.length,
    d i = 1 / memory.length

/-- The draws of the second half follow the weights. -/
def WeightedHalf (memory : List (Transition φ)) (batchSize : ℕ) : Prop :=
  ∀ d ∈ (sample memory batchSize).drop (batchSize / 2), ∀ (i : ℕ) (_ : i < memory.length),
    d i = memory[i].weight / (memory.map Transition.weight).sum

theorem runningSums_snd (current : ℚ) (ws : List ℚ) :
    (runningSums current ws).2 = current + ws.sum := by
  induction ws generalizing current with
  | nil => exact (add_zero current).symm
  | cons w ws ih => rw [runningSums, ih, sum_cons, add_assoc]

/-- The last of the running sums is the sum of the weights already. -/
theorem le_sum_runningSums {current : ℚ} (hcurrent : 0 ≤ current) {ws : List ℚ} (hne : ws ≠ [])
    (hpos : ∀ w ∈ ws, 0 < w) : current + ws.sum ≤ (runningSums current ws).1.sum := by
  induction ws generalizing current with
  | nil => exact absurd rfl hne
  | cons w ws ih =>
    obtain ⟨hw, hws⟩ := forall_mem_cons.mp hpos
    rw [runningSums, sum_cons, sum_cons]
    rcases eq_or_ne ws [] with rfl | hne
    · simp [runningSums]
    · linarith [ih (add_nonneg hcurrent hw.le) hne hws]

/-- The first of several transitions is drawn too rarely. -/
theorem choices_runningSums_lt {w : ℚ} (hw : 0 < w) {ws : List ℚ} (hne : ws ≠ [])
    (hpos : ∀ v ∈ ws, 0 < v) :
    choices ((runningSums 0 (w :: ws)).1.map (· / (runningSums 0 (w :: ws)).2)) 0 <
      w / (w :: ws).sum := by
  have htotal : 0 < w + ws.sum := add_pos hw (sum_pos ws hpos hne)
  have hle := le_sum_runningSums hw.le hne hpos
  have hsum : ((runningSums 0 (w :: ws)).1.map (· / (w + ws.sum))).sum =
      (w + (runningSums w ws).1.sum) / (w + ws.sum) := by
    simp only [runningSums, zero_add, div_eq_mul_inv, sum_map_mul_right, map_id', sum_cons]
  have hfirst : ((runningSums 0 (w :: ws)).1.map (· / (w + ws.sum))).getD 0 0 =
      w / (w + ws.sum) := by
    simp [runningSums]
  rw [runningSums_snd, zero_add, sum_cons, choices, hsum, hfirst]
  calc (w / (w + ws.sum)) / ((w + (runningSums w ws).1.sum) / (w + ws.sum))
      = w / (w + (runningSums w ws).1.sum) := div_div_div_cancel_right₀ htotal.ne' ..
    _ < w / (w + ws.sum) := div_lt_div_of_pos_left hw htotal (by linarith)

variable {memory : List (Transition φ)} {batchSize : ℕ}

theorem uniformHalf_iff (hm : batchSize < memory.length) :
    UniformHalf memory batchSize ↔ batchSize < 2 := by
  rw [UniformHalf, sample, if_pos hm, take_left' length_replicate]
  constructor
  · intro h
    by_contra hb
    -- index 0 has the probability of an index among half a batch
    have hlaw := h _ (mem_replicate.mpr ⟨by omega, rfl⟩) 0 (by omega)
    rw [randint, if_pos ⟨le_rfl, Nat.zero_le _⟩, one_div, one_div, inv_inj, Nat.cast_inj] at hlaw
    omega
  · intro hb d hd
    exact absurd (mem_replicate.mp hd).1 (by omega)

theorem weightedHalf_iff (hpos : ∀ x ∈ memory, 0 < x.weight) (hm : batchSize < memory.length) :
    WeightedHalf memory batchSize ↔ batchSize = 0 := by
  rw [WeightedHalf, sample, if_pos hm, drop_left' length_replicate, weightSample]
  constructor
  · intro h
    by_contra hb
    obtain _ | ⟨x, _ | ⟨y, rest⟩⟩ := memory
    · exact absurd hm (Nat.not_lt_zero _)
    · exact hb (Nat.lt_one_iff.mp hm)
    refine (choices_runningSums_lt (hpos x mem_cons_self) (cons_ne_nil _ _) ?_).ne
      (h _ (mem_replicate.mpr ⟨by omega, rfl⟩) 0 (Nat.succ_pos _))
    exact forall_mem_map.mpr fun t ht => hpos t (mem_cons_of_mem x ht)
  · rintro rfl d hd
    exact absurd (mem_replicate.mp hd).1 (by simp)

/-- **The batch follows the weights** only if it is empty: the first half is uniform exactly if it
has no draws, and so is the second. -/
theorem sampling_iff (hpos : ∀ x ∈ memory, 0 < x.weight) (hm : batchSize < memory.length) :
    (UniformHalf memory batchSize ↔ batchSize < 2) ∧
      (WeightedHalf memory batchSize ↔ batchSize = 0) :=
  ⟨uniformHalf_iff hm, weightedHalf_iff hpos hm⟩

/-- Three transitions of the same weight. -/
def equalWeights : List (Transition Unit) := replicate 3 ⟨(), 1⟩

theorem sampling_equalWeights :
    ¬ UniformHalf equalWeights 2 ∧ ¬ WeightedHalf equalWeights 2 :=
  have h := @sampling_iff Unit equalWeights 2 (by simp [equalWeights]) (by decide)
  ⟨h.1.not.mpr (by decide), h.2.not.mpr (by decide)⟩

/-- The first draw is always transition 0, and the second prefers the last one: neither half
follows its law. -/
theorem last_transition_preferred :
    (sample equalWeights 2).map (fun d => (range 3).map d) =
        [[1, 0, 0], [1 / 6, 1 / 3, 1 / 2]] ∧
      ¬ UniformHalf equalWeights 2 ∧ ¬ WeightedHalf equalWeights 2 := by
  refine ⟨by decide +kernel, (uniformHalf_iff (by decide)).not.mpr (by decide), ?_⟩
  exact (weightedHalf_iff (by simp [equalWeights]) (by decide)).not.mpr (by decide)

end NeurDB.NeurQo
