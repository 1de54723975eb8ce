import TileWorld.Route.Condition

/-!
# The band around a target

A `TargetCondition` accepts cells of a band of distances only
(`matches_of_accepted`). Cells at its far edge match exactly, and where
the band reaches no further than the target's neighbors all of its cells
do (`judge_of_exact`).
-/

namespace TileWorld.TargetCondition

/-- A route may end on the cell: it lies in range and within the band of
distances, and has a clear line to the target if one is demanded. -/
structure Matches (c : TargetCondition) (w : World) (start p : Position) (params : SearchParams) :
    Prop where
  inRange : c.isInRange start p params = true
  sight : params.clearSight = true → w.isSightClear p c.target true = true
  near : params.minTarget.toInt ≤ p.chebyshev c.target
  far : (p.chebyshev c.target : Int) ≤ params.maxTarget.toInt

/-- A match that ends the search. -/
structure MatchesExactly (c : TargetCondition) (w : World) (start p : Position)
    (params : SearchParams) : Prop extends c.Matches w start p params where
  exact : (p.chebyshev c.target : Int) = params.maxTarget.toInt ∨ params.maxTarget.toInt = 1

variable {c : TargetCondition} {w : World} {start p : Position} {params : SearchParams} {best : Int}

theorem matches_of_accepted (h : (c.judge w start p params best).accepted = true) :
    c.Matches w start p params := by
  unfold judge at h
  dsimp only at h
  split at h
  · cases h
  rename_i hrange
  split at h
  · cases h
  rename_i hsight
  have hin : c.isInRange start p params = true := by simpa using hrange
  have hclear : params.clearSight = true → w.isSightClear p c.target true = true := by
    intro hdemanded
    simpa [hdemanded] using hsight
  split at h
  · simp only [Bool.and_eq_true, decide_eq_true_eq] at h
    exact ⟨hin, hclear, h.1, h.2⟩
  · split at h
    · cases h
    · rename_i hband
      simp only [Bool.or_eq_true, decide_eq_true_eq, not_or] at hband
      exact ⟨hin, hclear, by omega, by omega⟩

theorem judge_of_not_matches (h : ¬ c.Matches w start p params) :
    c.judge w start p params best = ⟨false, best⟩ := by
  have hrejected : (c.judge w start p params best).accepted = false :=
    Bool.eq_false_iff.mpr fun haccepted => h (matches_of_accepted haccepted)
  revert hrejected
  unfold judge
  dsimp only
  split
  · exact fun _ => rfl
  split
  · exact fun _ => rfl
  split
  · exact congrArg (Verdict.mk · best)
  split
  · exact fun _ => rfl
  split
  · exact nofun
  split
  · exact nofun
  · exact fun _ => rfl

theorem judge_of_matches (h : c.Matches w start p params) (best : Int) :
    c.judge w start p params best =
      if params.maxTarget.toInt = 1 then ⟨true, best⟩
      else if (p.chebyshev c.target : Int) = params.maxTarget.toInt then ⟨true, 0⟩
      else if best < p.chebyshev c.target then ⟨true, p.chebyshev c.target⟩
      else ⟨false, best⟩ := by
  obtain ⟨hin, hclear, hnear, hfar⟩ := h
  have hsight : (params.clearSight && !w.isSightClear p c.target true) = false := by
    cases hdemanded : params.clearSight with
    | false => rfl
    | true => rw [hclear hdemanded]; rfl
  have hband : (params.maxTarget.toInt < (p.chebyshev c.target : Int) ||
      (p.chebyshev c.target : Int) < params.minTarget.toInt) = false := by
    rw [Bool.or_eq_false_iff, decide_eq_false_iff_not, decide_eq_false_iff_not]
    omega
  unfold judge
  dsimp only
  rw [hin, hsight, hband]
  simp only [Bool.not_true, Bool.false_eq_true, if_false, decide_eq_true hnear,
    decide_eq_true hfar, Bool.and_self]

/-- An exact match is accepted with quality zero, next to the target on
the condition that no other quality was held before. -/
theorem judge_of_exact (h : c.MatchesExactly w start p params)
    (hbest : params.maxTarget.toInt = 1 → best = 0) :
    c.judge w start p params best = ⟨true, 0⟩ := by
  rw [judge_of_matches h.toMatches]
  split
  · rename_i hone
    rw [hbest hone]
  · rename_i hone
    rw [if_pos (h.exact.resolve_right hone)]

/-- A match that does not end the search is accepted if it is farther than
those before it. -/
theorem judge_of_inexact (h : c.Matches w start p params)
    (hinexact : ¬ c.MatchesExactly w start p params) (best : Int) :
    c.judge w start p params best =
      if best < p.chebyshev c.target then ⟨true, p.chebyshev c.target⟩ else ⟨false, best⟩ := by
  have hone : ¬ params.maxTarget.toInt = 1 := fun hone => hinexact ⟨h, Or.inr hone⟩
  have hedge : ¬ (p.chebyshev c.target : Int) = params.maxTarget.toInt :=
    fun hedge => hinexact ⟨h, Or.inl hedge⟩
  rw [judge_of_matches h, if_neg hone, if_neg hedge]

/-- Next to the target the quality stays as it was. -/
theorem best_judge_of_one (hone : params.maxTarget.toInt = 1) :
    (c.judge w start p params best).best = best := by
  unfold judge
  dsimp only
  rw [if_pos hone]
  split
  · rfl
  · split <;> rfl

end TileWorld.TargetCondition
