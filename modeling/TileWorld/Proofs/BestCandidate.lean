import Mathlib.Data.List.Induction
import Mathlib.Order.Bounds.Basic
import TileWorld.Proofs.SearchBounds
import TileWorld.Proofs.SearchOrder
import TileWorld.Proofs.TargetBand

/-!
# The best candidate of the band

A condition that is asked about one candidate after another, each time with
the quality that its last answer left, settles on the candidate accepted
last (`PathCondition.poll`). The route of a search leads to the candidate
that the poll of its questions settles on
(`Pathfinder.Ready.destination_eq_poll`).

A `TargetCondition` settles on the first exact match, and failing that on
the earliest of the farthest cells of its band (`poll_target`). Quality is
distance here, and zero is also the quality of no match at all. A cell in
the very column and row of the target is therefore no better than nothing
unless it matches exactly (`poll_target_misses_target`).
-/

namespace TileWorld

/-- The entry at the index is the first of the list with the property. -/
structure IsFirst (P : Position → Prop) (candidates : List Position) (i : Nat) : Prop where
  holds : ∃ p, candidates[i]? = some p ∧ P p
  earlier : ∀ j p, j < i → candidates[j]? = some p → ¬ P p

namespace IsFirst

variable {P : Position → Prop} {candidates : List Position} {i j : Nat}

theorem lt_length (h : IsFirst P candidates i) : i < candidates.length := by
  obtain ⟨p, hp, -⟩ := h.holds
  exact (List.getElem?_eq_some_iff.mp hp).1

theorem exists_mem (h : IsFirst P candidates i) : ∃ p ∈ candidates, P p := by
  obtain ⟨p, hp, hP⟩ := h.holds
  exact ⟨p, List.mem_of_getElem? hp, hP⟩

theorem unique (hi : IsFirst P candidates i) (hj : IsFirst P candidates j) : i = j := by
  obtain ⟨p, hp, hP⟩ := hi.holds
  obtain ⟨r, hr, hR⟩ := hj.holds
  rcases Nat.lt_trichotomy i j with hlt | heq | hgt
  · exact absurd hP (hj.earlier i p hlt hp)
  · exact heq
  · exact absurd hR (hi.earlier j r hgt hr)

theorem append (h : IsFirst P candidates i) (more : List Position) :
    IsFirst P (candidates ++ more) i := by
  have hlen := h.lt_length
  constructor
  case holds =>
    rw [List.getElem?_append_left hlen]
    exact h.holds
  case earlier =>
    intro j p hj hp
    rw [List.getElem?_append_left (by omega)] at hp
    exact h.earlier j p hj hp

/-- What no entry has so far, the next one is the first to have. -/
theorem concat {p : Position} (hnone : ∀ r ∈ candidates, ¬ P r) (hp : P p) :
    IsFirst P (candidates ++ [p]) candidates.length := by
  constructor
  case holds => exact ⟨p, List.getElem?_concat_length, hp⟩
  case earlier =>
    intro j r hj hr
    rw [List.getElem?_append_left hj] at hr
    exact hnone r (List.mem_of_getElem? hr)

end IsFirst

/-! ## Polls -/

/-- A condition in the course of being asked about one candidate after
another. -/
structure Poll where
  /-- Quality of the best match so far. -/
  best : Int := 0
  /-- Number of candidates asked about. -/
  asked : Nat := 0
  /-- Index of the candidate accepted last. -/
  found : Option Nat := none
  /-- An exact match was found. -/
  finished : Bool := false
  deriving DecidableEq, Repr

namespace PathCondition

/-- The poll after one more candidate, which is not looked at if an exact
match was found. -/
def ask (c : PathCondition) (w : World) (start : Position) (params : SearchParams) (s : Poll)
    (p : Position) : Poll :=
  if s.finished then s
  else
    let verdict := c.judge w start p params s.best
    { best := verdict.best
      asked := s.asked + 1
      found := if verdict.accepted then some s.asked else s.found
      finished := verdict.accepted && verdict.best == 0 }

/-- The poll of the candidates in order. -/
def poll (c : PathCondition) (w : World) (start : Position) (params : SearchParams)
    (candidates : List Position) : Poll :=
  candidates.foldl (c.ask w start params) {}

variable {c : PathCondition} {w : World} {start : Position} {params : SearchParams}

theorem ask_of_finished {s : Poll} (h : s.finished = true) (p : Position) :
    c.ask w start params s p = s := by
  rw [ask, if_pos h]

theorem ask_of_judge {s : Poll} (h : s.finished = false) {p : Position} {verdict : Verdict}
    (hverdict : c.judge w start p params s.best = verdict) :
    c.ask w start params s p =
      { best := verdict.best
        asked := s.asked + 1
        found := if verdict.accepted then some s.asked else s.found
        finished := verdict.accepted && verdict.best == 0 } := by
  rw [ask, if_neg (ne_true_of_eq_false h), hverdict]

theorem ask_of_rejected {s : Poll} (h : s.finished = false) {p : Position}
    (hverdict : c.judge w start p params s.best = ⟨false, s.best⟩) :
    c.ask w start params s p = { s with asked := s.asked + 1 } := by
  rw [ask_of_judge h hverdict]
  exact congrArg (Poll.mk s.best (s.asked + 1) s.found) h.symm

theorem ask_of_exact {s : Poll} (h : s.finished = false) {p : Position}
    (hverdict : c.judge w start p params s.best = ⟨true, 0⟩) :
    c.ask w start params s p = ⟨0, s.asked + 1, some s.asked, true⟩ :=
  ask_of_judge h hverdict

theorem ask_of_inexact {s : Poll} (h : s.finished = false) {p : Position} {quality : Int}
    (hquality : quality ≠ 0) (hverdict : c.judge w start p params s.best = ⟨true, quality⟩) :
    c.ask w start params s p = ⟨quality, s.asked + 1, some s.asked, false⟩ := by
  rw [ask_of_judge h hverdict, beq_false_of_ne hquality]
  rfl

theorem poll_concat (candidates : List Position) (p : Position) :
    c.poll w start params (candidates ++ [p]) =
      c.ask w start params (c.poll w start params candidates) p := by
  rw [poll, List.foldl_append]
  rfl

end PathCondition

/-! ## The poll of a search -/

namespace Search

variable {q : Quest} {s s' : Search} {a : Poll}

/-- The positions asked about, in order. -/
def candidates (s : Search) : List Position :=
  s.visits.reverse.map (·.position)

/-- The search stands where a poll of the positions asked about stands. -/
structure Polled (q : Quest) (s : Search) (a : Poll) : Prop where
  poll : a = q.condition.poll q.world q.start q.params s.candidates
  best : a.best = s.best
  asked : a.asked = s.visits.length
  found : s.found = a.found.bind fun i => s.visits.reverse[i]?.map (·.node)
  known : ∀ i, a.found = some i → i < s.visits.length
  finished : a.finished = s.finished

theorem polled_start (q : Quest) (pool : Pool) : Polled q { pool := pool } {} :=
  ⟨rfl, rfl, rfl, rfl, nofun, rfl⟩

namespace Polled

theorem keeps (h : s.Polled q a) (hkeeps : s.Keeps s') : s'.Polled q a := by
  obtain ⟨hbest, hfound, hfinished, hvisits, -⟩ := hkeeps
  constructor
  case poll => rw [candidates, hvisits]; exact h.poll
  case best => rw [hbest, h.best]
  case asked => rw [hvisits, h.asked]
  case found => rw [hvisits, hfound, h.found]
  case known => rw [hvisits]; exact h.known
  case finished => rw [hfinished, h.finished]

theorem ask (h : s.Polled q a) (hgoing : s.finished = false) (current : NodeIndex) (n : Node) :
    (s.ask q current n).Polled q
      (q.condition.ask q.world q.start q.params a (n.position q.start.z)) := by
  have hposition : (s.ask q current n).candidates = s.candidates ++ [n.position q.start.z] := by
    simp only [candidates, Search.ask, List.reverse_cons, List.map_append, List.map_cons,
      List.map_nil]
  have hverdict : q.condition.judge q.world q.start (n.position q.start.z) q.params a.best =
      q.condition.judge q.world q.start (n.position q.start.z) q.params s.best := by
    rw [h.best]
  have hlast : ∀ v : Visit, (v :: s.visits).reverse[a.asked]? = some v := by
    intro v
    rw [List.reverse_cons, h.asked, ← List.length_reverse, List.getElem?_concat_length]
  have hearlier : ∀ (v : Visit) (i : Nat), i < s.visits.length →
      (v :: s.visits).reverse[i]? = s.visits.reverse[i]? := by
    intro v i hi
    rw [List.reverse_cons, List.getElem?_append_left (by rwa [List.length_reverse])]
  constructor
  case poll => rw [hposition, PathCondition.poll_concat, ← h.poll]
  all_goals rw [PathCondition.ask_of_judge (h.finished.trans hgoing) hverdict]
  case best => rfl
  case asked => exact congrArg (· + 1) h.asked
  case finished => rfl
  case found =>
    show (if _ then some current else s.found) = _
    split
    · simp only [Option.bind_some, Search.ask, hlast, Option.map_some]
    · rw [h.found]
      refine Option.bind_congr fun i hi => ?_
      simp only [Search.ask, hearlier _ i (h.known i hi)]
  case known =>
    intro i hi
    dsimp only at hi
    split at hi
    · obtain rfl := Option.some.inj hi
      exact Nat.lt_succ_of_le (Nat.le_of_eq h.asked)
    · exact Nat.lt_succ_of_lt (h.known i hi)

/-- The route to the node found leads to the candidate that the poll found. -/
theorem destination (h : s.Polled q a) (hsound : s.Sound q) :
    (s.found.bind fun i => s.pool.route? i q.start.z).map (·.destination) =
      a.found.bind fun i => s.candidates[i]? := by
  rw [h.found]
  cases hfound : a.found with
  | none => rfl
  | some i =>
      have hi : i < s.visits.reverse.length := by
        rw [List.length_reverse]
        exact h.known i hfound
      have hv : s.visits.reverse[i]? = some s.visits.reverse[i] := List.getElem?_eq_getElem hi
      obtain ⟨-, route, -, -, hroute, hposition, -⟩ :=
        hsound.exists_route (List.mem_reverse.mp (List.getElem_mem hi))
      simp only [Option.bind_some, candidates, List.getElem?_map, hv, Option.map_some, hroute,
        hposition]

end Polled

/-- At any time a search stands where the poll stands of what it has asked
about. -/
theorem Valid.polled_run (hvalid : s.Valid q) (h : s.Polled q a) (turns : Nat) :
    ∃ a', (Search.run q turns s).Polled q a' := by
  refine (run_induction (P := fun s => s.Valid q ∧ ∃ a, s.Polled q a) ?_ ⟨hvalid, a, h⟩ turns).2
  rintro t current n ⟨hvalid, a, h⟩ hselect hn
  have hasked := h.ask (select?_eq_some hselect).1 current n
  exact ⟨hvalid.turn hselect, _, hasked.keeps (hvalid.turn_keeps hselect hn)⟩

end Search

/-- A search leads to the cell that the poll of its questions settles on,
and nowhere if it settles on none. -/
theorem Pathfinder.Ready.destination_eq_poll {f f' : Pathfinder} (h : f.Ready) {w : World}
    {mover : Occupant} {start : Position} {condition : PathCondition} {params : SearchParams}
    {report : SearchReport} (hfind : f.find w mover start condition params = some (f', report)) :
    let candidates := report.visits.map (·.position)
    report.route.map (·.destination) =
      (condition.poll w start params candidates).found.bind fun i => candidates[i]? := by
  cases hstart : start.hasValidFloor with
  | false =>
      unfold find at hfind
      rw [hstart] at hfind
      cases hfind
      rfl
  | true =>
      obtain ⟨-, -, rfl⟩ := find_eq_some hstart hfind
      let q : Quest := ⟨f.config, w, mover, start, condition, params⟩
      have hvalid := h.valid_restart q
      obtain ⟨a, ha⟩ := hvalid.polled_run (Search.polled_start q _) f.config.nodeCapacity
      exact (ha.destination (hvalid.run _).sound).trans
        (congrArg (fun poll : Poll => poll.found.bind _) ha.poll)

/-! ## The poll for a target -/

namespace TargetCondition

/-- Seen from the start, the cell is not beyond the target along either axis. -/
structure Faces (c : TargetCondition) (start p : Position) : Prop where
  west : start.x.toNat < c.target.x.toNat → p.x.toNat ≤ c.target.x.toNat
  east : c.target.x.toNat < start.x.toNat → c.target.x.toNat ≤ p.x.toNat
  north : start.y.toNat < c.target.y.toNat → p.y.toNat ≤ c.target.y.toNat
  south : c.target.y.toNat < start.y.toNat → c.target.y.toNat ≤ p.y.toNat

/-- The cell lies in the band of distances, on a side of the target that
counts, and has a clear line to the target if one is demanded. All bounds
are exact integers. -/
structure InBand (c : TargetCondition) (w : World) (start : Position) (params : SearchParams)
    (p : Position) : Prop where
  facing : params.fullSearch = false → c.Faces start p
  sight : params.clearSight = true → w.isSightClear p c.target true = true
  near : params.minTarget.toInt ≤ p.chebyshev c.target
  far : (p.chebyshev c.target : Int) ≤ params.maxTarget.toInt

variable {c : TargetCondition} {w : World} {start p : Position} {params : SearchParams}

/-- The range along one axis, with a reach towards the sides that count. -/
theorem inReach_iff (source target x reach : Int) (full : Bool) :
    x ≤ target + (if full || 0 ≤ source - target then reach else 0) ∧
        target - (if full || source - target ≤ 0 then reach else 0) ≤ x ↔
      ((x - target).natAbs : Int) ≤ reach ∧
        (full = false → (source < target → x ≤ target) ∧ (target < source → target ≤ x)) := by
  cases full with
  | true =>
      simp only [Bool.true_or, if_true, reduceCtorEq, false_implies, and_true]
      omega
  | false =>
      simp only [Bool.false_or, decide_eq_true_eq, forall_const]
      rcases Int.lt_trichotomy source target with hlt | rfl | hgt
      · rw [if_neg (by omega), if_pos (by omega)]
        omega
      · rw [if_pos (by omega), if_pos (by omega)]
        omega
      · rw [if_pos (by omega), if_neg (by omega)]
        omega

theorem isInRange_iff : c.isInRange start p params = true ↔
    (p.chebyshev c.target : Int) ≤ params.maxTarget.toInt ∧
      (params.fullSearch = false → c.Faces start p) := by
  have hbox : (p.chebyshev c.target : Int) ≤ params.maxTarget.toInt ↔
      (((p.x.toNat : Int) - c.target.x.toNat).natAbs : Int) ≤ params.maxTarget.toInt ∧
        (((p.y.toNat : Int) - c.target.y.toNat).natAbs : Int) ≤ params.maxTarget.toInt := by
    unfold Position.chebyshev Position.distanceX Position.distanceY
    omega
  unfold isInRange
  simp only [Bool.and_eq_true, decide_eq_true_eq, le_saturate_iff, saturate_le_iff]
  rw [and_assoc, inReach_iff, inReach_iff, hbox]
  constructor
  · rintro ⟨⟨hx, hfacingX⟩, hy, hfacingY⟩
    refine ⟨⟨hx, hy⟩, fun hpartial => ?_⟩
    obtain ⟨hwest, heast⟩ := hfacingX hpartial
    obtain ⟨hnorth, hsouth⟩ := hfacingY hpartial
    constructor <;> omega
  · rintro ⟨⟨hx, hy⟩, hfacing⟩
    refine ⟨⟨hx, fun hpartial => ?_⟩, hy, fun hpartial => ?_⟩
    all_goals
      obtain ⟨hwest, heast, hnorth, hsouth⟩ := hfacing hpartial
      constructor <;> omega

/-- Saturation never changes what matches. -/
theorem matches_iff_inBand : c.Matches w start p params ↔ c.InBand w start params p := by
  constructor
  · rintro ⟨hrange, hsight, hnear, hfar⟩
    exact ⟨(isInRange_iff.mp hrange).2, hsight, hnear, hfar⟩
  · rintro ⟨hfacing, hsight, hnear, hfar⟩
    exact ⟨isInRange_iff.mpr ⟨hfar, hfacing⟩, hsight, hnear, hfar⟩

/-- A cell at the far edge of the band, or anywhere in it if the band
reaches no further than the neighbors of the target. -/
structure IsExact (c : TargetCondition) (w : World) (start : Position) (params : SearchParams)
    (p : Position) : Prop extends c.InBand w start params p where
  exact : (p.chebyshev c.target : Int) = params.maxTarget.toInt ∨ params.maxTarget.toInt = 1

theorem matchesExactly_iff_isExact :
    c.MatchesExactly w start p params ↔ c.IsExact w start params p :=
  ⟨fun h => ⟨matches_iff_inBand.mp h.toMatches, h.exact⟩,
    fun h => ⟨matches_iff_inBand.mpr h.toInBand, h.exact⟩⟩

/-- The distances of the candidates in the band. -/
def distances (c : TargetCondition) (w : World) (start : Position) (params : SearchParams)
    (candidates : List Position) : Set Nat :=
  {distance | ∃ p ∈ candidates, c.InBand w start params p ∧ p.chebyshev c.target = distance}

/-- Where a poll stands that has found no exact match. -/
structure Pending (c : TargetCondition) (w : World) (start : Position) (params : SearchParams)
    (candidates : List Position) (best : Nat) (found : Option Nat) : Prop where
  inexact : ∀ p ∈ candidates, ¬ c.IsExact w start params p
  farthest : ∀ p ∈ candidates, c.InBand w start params p → p.chebyshev c.target ≤ best
  unmatched : found = none → best = 0
  matched : ∀ i, found = some i → 0 < best ∧
    IsFirst (fun p => c.InBand w start params p ∧ p.chebyshev c.target = best) candidates i

namespace Pending

variable {candidates : List Position} {best : Nat} {found : Option Nat}

theorem nil : c.Pending w start params [] 0 none :=
  ⟨nofun, nofun, fun _ => rfl, nofun⟩

theorem isGreatest (h : c.Pending w start params candidates best found) {i : Nat}
    (hi : found = some i) : IsGreatest (c.distances w start params candidates) best := by
  obtain ⟨p, hp, hband, hdistance⟩ := (h.matched i hi).2.exists_mem
  refine ⟨⟨p, hp, hband, hdistance⟩, ?_⟩
  rintro _ ⟨r, hr, hrband, rfl⟩
  exact h.farthest r hr hrband

/-- A cell turned down leaves the best match as it was. -/
theorem rejected (h : c.Pending w start params candidates best found)
    (hinexact : ¬ c.IsExact w start params p)
    (hnearer : c.InBand w start params p → p.chebyshev c.target ≤ best) :
    c.Pending w start params (candidates ++ [p]) best found := by
  constructor
  case inexact =>
    exact List.forall_mem_append.mpr ⟨h.inexact, List.forall_mem_singleton.mpr hinexact⟩
  case farthest =>
    exact List.forall_mem_append.mpr ⟨h.farthest, List.forall_mem_singleton.mpr hnearer⟩
  case unmatched => exact h.unmatched
  case matched =>
    intro i hi
    obtain ⟨hpos, hfirst⟩ := h.matched i hi
    exact ⟨hpos, hfirst.append [p]⟩

/-- A match farther than all before it becomes the best one. -/
theorem farther (h : c.Pending w start params candidates best found)
    (hband : c.InBand w start params p) (hinexact : ¬ c.IsExact w start params p)
    (hfarther : best < p.chebyshev c.target) :
    c.Pending w start params (candidates ++ [p]) (p.chebyshev c.target)
      (some candidates.length) := by
  constructor
  case inexact =>
    exact List.forall_mem_append.mpr ⟨h.inexact, List.forall_mem_singleton.mpr hinexact⟩
  case farthest =>
    refine List.forall_mem_append.mpr ⟨fun r hr hrband => ?_, ?_⟩
    · exact Nat.le_trans (h.farthest r hr hrband) (Nat.le_of_lt hfarther)
    · exact List.forall_mem_singleton.mpr fun _ => Nat.le_refl _
  case unmatched => exact nofun
  case matched =>
    rintro _ ⟨⟩
    refine ⟨Nat.zero_lt_of_lt hfarther, IsFirst.concat ?_ ⟨hband, rfl⟩⟩
    -- the earlier matches were nearer
    rintro r hr ⟨hrband, hdistance⟩
    have hnearer := h.farthest r hr hrband
    omega

/-- Next to the target every match is exact. -/
theorem best_of_one (h : c.Pending w start params candidates best found)
    (hone : params.maxTarget.toInt = 1) : best = 0 := by
  cases hfound : found with
  | none => exact h.unmatched hfound
  | some i =>
      obtain ⟨p, hp, hband, -⟩ := (h.matched i hfound).2.exists_mem
      exact absurd ⟨hband, Or.inr hone⟩ (h.inexact p hp)

end Pending

/-- Where a poll of the candidates stands. -/
inductive Settled (c : TargetCondition) (w : World) (start : Position) (params : SearchParams)
    (candidates : List Position) : Poll → Prop where
  | pending {best asked : Nat} {found : Option Nat} (hasked : candidates.length = asked)
      (h : c.Pending w start params candidates best found) :
      c.Settled w start params candidates ⟨best, asked, found, false⟩
  | exact {i asked : Nat} (hfirst : IsFirst (c.IsExact w start params) candidates i) :
      c.Settled w start params candidates ⟨0, asked, some i, true⟩

variable {candidates : List Position}

theorem Settled.ask {s : Poll} (h : c.Settled w start params candidates s) (p : Position) :
    c.Settled w start params (candidates ++ [p]) (c.toPathCondition.ask w start params s p) := by
  cases h with
  | exact hfirst =>
      rw [PathCondition.ask_of_finished rfl]
      exact .exact (hfirst.append [p])
  | @pending best asked found hasked h =>
      have hlength : (candidates ++ [p]).length = asked + 1 := by
        rw [List.length_append, hasked, List.length_singleton]
      subst hasked
      by_cases hexact : c.IsExact w start params p
      · have hjudge : c.judge w start p params best = ⟨true, 0⟩ :=
          judge_of_exact (matchesExactly_iff_isExact.mpr hexact) fun hone =>
            Int.natCast_eq_zero.mpr (h.best_of_one hone)
        rw [PathCondition.ask_of_exact rfl hjudge]
        exact .exact (IsFirst.concat h.inexact hexact)
      by_cases hband : c.InBand w start params p
      · have hjudge := judge_of_inexact (matches_iff_inBand.mpr hband)
          (mt matchesExactly_iff_isExact.mp hexact) best
        by_cases hfarther : best < p.chebyshev c.target
        · rw [if_pos (Int.ofNat_lt.mpr hfarther)] at hjudge
          rw [PathCondition.ask_of_inexact rfl (by omega) hjudge]
          exact .pending hlength (h.farther hband hexact hfarther)
        · rw [if_neg (mt Int.ofNat_lt.mp hfarther)] at hjudge
          rw [PathCondition.ask_of_rejected rfl hjudge]
          exact .pending hlength (h.rejected hexact fun _ => Nat.not_lt.mp hfarther)
      · have hjudge : c.judge w start p params best = ⟨false, best⟩ :=
          judge_of_not_matches (mt matches_iff_inBand.mp hband)
        rw [PathCondition.ask_of_rejected rfl hjudge]
        exact .pending hlength (h.rejected hexact fun hband' => absurd hband' hband)

theorem settled_poll (c : TargetCondition) (w : World) (start : Position) (params : SearchParams)
    (candidates : List Position) :
    c.Settled w start params candidates (c.toPathCondition.poll w start params candidates) := by
  induction candidates using List.reverseRecOn with
  | nil => exact .pending rfl .nil
  | append_singleton earlier p ih =>
      rw [PathCondition.poll_concat]
      exact ih.ask p

theorem Settled.found_eq_some_iff {s : Poll} (h : c.Settled w start params candidates s) {i : Nat} :
    s.found = some i ↔
      IsFirst (c.IsExact w start params) candidates i ∨
        (∀ p ∈ candidates, ¬ c.IsExact w start params p) ∧ ∃ farthest,
          IsGreatest (c.distances w start params candidates) farthest ∧ 0 < farthest ∧
            IsFirst (fun p => c.InBand w start params p ∧ p.chebyshev c.target = farthest)
              candidates i := by
  cases h with
  | exact hfirst =>
      constructor
      · rintro ⟨⟩
        exact Or.inl hfirst
      · rintro (hfirst' | ⟨hinexact, -⟩)
        · rw [hfirst.unique hfirst']
        · obtain ⟨p, hp, hexact⟩ := hfirst.exists_mem
          exact absurd hexact (hinexact p hp)
  | @pending best asked found hasked h =>
      constructor
      · intro hi
        exact Or.inr ⟨h.inexact, best, h.isGreatest hi, h.matched i hi⟩
      · rintro (hfirst | ⟨-, farthest, hgreatest, hpos, hfirst⟩)
        · obtain ⟨p, hp, hexact⟩ := hfirst.exists_mem
          exact absurd hexact (h.inexact p hp)
        · obtain ⟨p, hp, hband, hdistance⟩ := hgreatest.1
          have hbest := h.farthest p hp hband
          cases hfound : found with
          | none =>
              have hzero := h.unmatched hfound
              omega
          | some j =>
              obtain rfl := hgreatest.unique (h.isGreatest hfound)
              rw [hfirst.unique (h.matched j hfound).2]

theorem Settled.found_eq_none_iff {s : Poll} (h : c.Settled w start params candidates s) :
    s.found = none ↔ ∀ p ∈ candidates, c.InBand w start params p →
      ¬ c.IsExact w start params p ∧ p.chebyshev c.target = 0 := by
  cases h with
  | exact hfirst =>
      obtain ⟨p, hp, hexact⟩ := hfirst.exists_mem
      exact ⟨nofun, fun hall => absurd hexact (hall p hp hexact.toInBand).1⟩
  | @pending best asked found hasked h =>
      constructor
      · intro hfound p hp hband
        have hdistance := h.farthest p hp hband
        rw [h.unmatched hfound] at hdistance
        exact ⟨h.inexact p hp, Nat.le_zero.mp hdistance⟩
      · intro hall
        refine Option.eq_none_iff_forall_ne_some.mpr fun i hi => ?_
        obtain ⟨hpos, hfirst⟩ := h.matched i hi
        obtain ⟨p, hp, hband, hdistance⟩ := hfirst.exists_mem
        have hzero := (hall p hp hband).2
        omega

/-- A poll settles on the first exact match, and if there is none on the
earliest of the farthest candidates in the band, unless these are no
distance away. Then it settles on none. -/
theorem poll_target (c : TargetCondition) (w : World) (start : Position) (params : SearchParams)
    (candidates : List Position) :
    let found := (c.toPathCondition.poll w start params candidates).found
    (∀ i, found = some i ↔
      IsFirst (c.IsExact w start params) candidates i ∨
        (∀ p ∈ candidates, ¬ c.IsExact w start params p) ∧ ∃ farthest,
          IsGreatest (c.distances w start params candidates) farthest ∧ 0 < farthest ∧
            IsFirst (fun p => c.InBand w start params p ∧ p.chebyshev c.target = farthest)
              candidates i) ∧
    (found = none ↔ ∀ p ∈ candidates, c.InBand w start params p →
      ¬ c.IsExact w start params p ∧ p.chebyshev c.target = 0) := by
  have hsettled := c.settled_poll w start params candidates
  exact ⟨fun _ => hsettled.found_eq_some_iff, hsettled.found_eq_none_iff⟩

/-- In a band that begins at distance zero the target itself is turned down. -/
theorem poll_target_misses_target :
    let c : TargetCondition := ⟨⟨10, 10, 7⟩⟩
    let w : World := .empty {}
    let params : SearchParams := { minTarget := 0, maxTarget := 4, clearSight := false }
    c.InBand w ⟨0, 10, 7⟩ params ⟨10, 10, 7⟩ ∧
      (c.toPathCondition.poll w ⟨0, 10, 7⟩ params [⟨10, 10, 7⟩]).found = none := by
  refine ⟨⟨nofun, nofun, by decide, by decide⟩, by decide⟩

end TargetCondition

end TileWorld
