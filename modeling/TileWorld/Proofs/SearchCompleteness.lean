import TileWorld.Proofs.RouteOptimality
import TileWorld.Proofs.SearchBounds

/-!
# What a search does not miss

A search that was not cut short either meets an exact match or closes
every cell that the mover can reach (`Sound.visited_of_route`). Meanwhile
it holds the match farthest from the target, and of several the one at
least cost (`Ranking`): as nodes are selected in the order of cost, a later
match at the same distance is never a better one. Hence the answer depends
only on the cells in reach, and not on how the search came upon them
(`find_complete`).
-/

namespace TileWorld

/-- An admissible route leads from the start to the position. -/
def Quest.Reaches (q : Quest) (p : Position) : Prop :=
  ∃ directions entered, q.Admissible directions entered ∧ q.start.endOf entered = p

namespace Search

variable {q : Quest} {s s' : Search}

/-! ## Cells in reach -/

theorem Sound.reaches (h : s.Sound q) {v : Visit} (hv : v ∈ s.visits) :
    q.Reaches v.position := by
  obtain ⟨n, route, entered, -, -, hposition, hdestination, -, htrail⟩ := h.exists_route hv
  exact ⟨route.directions, entered, htrail.admissible,
    htrail.ends.trans (hdestination.trans hposition.symm)⟩

/-- Once no node is open, all cells in reach have been asked about. -/
theorem Sound.visited_of_route (h : s.Sound q) (hall : s.pool.frontier = [])
    {directions : List Direction} {entered : List Position}
    (hroute : q.Admissible directions entered) :
    ∃ v ∈ s.visits, ∃ n : Node, s.pool.nodes[v.node]? = some n ∧
      v.position = q.start.endOf entered ∧ n.f.toNat ≤ q.routeCost directions entered := by
  obtain ⟨k, n, hn, hf, hreached⟩ := h.exists_of_route hroute
  have hclosed : k ∉ s.pool.frontier := by
    rw [hall]
    exact List.not_mem_nil
  obtain ⟨v, hv, rfl⟩ := List.mem_map.mp (h.grows.mem_of_not_open hn hclosed)
  obtain ⟨n', hn', hposition, -⟩ := h.asked v hv
  obtain rfl := Option.some.inj (hn.symm.trans hn')
  exact ⟨v, hv, n, hn, hposition.trans (hreached.resolve_left hclosed), hf⟩

theorem Sound.visited_of_reaches (h : s.Sound q) (hall : s.pool.frontier = []) {p : Position}
    (hp : q.Reaches p) : ∃ v ∈ s.visits, v.position = p := by
  obtain ⟨directions, entered, hroute, rfl⟩ := hp
  obtain ⟨v, hv, -, -, hposition, -⟩ := h.visited_of_route hall hroute
  exact ⟨v, hv, hposition⟩

theorem Valid.frontier_of_over (h : s.Valid q) (hover : s.select? q = none)
    (hfinished : s.finished = false) (hgoing : s.halt = none)
    (hbudget : s.isSpent q = false) : s.pool.frontier = [] := by
  rw [select?, hfinished, hgoing, hbudget] at hover
  exact Pool.best?_eq_none h.sound.grows.pool hover

/-! ## The best match so far -/

/-- The match is at the distance held as the best, at the least cost of all
nodes matched there. -/
structure Foremost (c : TargetCondition) (q : Quest) (s : Search) (v : Visit) : Prop where
  mem : v ∈ s.visits
  matching : c.Matches q.world q.start v.position q.params
  distance : (v.position.chebyshev c.target : Int) = s.best
  cheapest : ∀ u ∈ s.visits, c.Matches q.world q.start u.position q.params →
    (u.position.chebyshev c.target : Int) = s.best → ∀ m n : Node,
      s.pool.nodes[v.node]? = some m → s.pool.nodes[u.node]? = some n → m.f ≤ n.f

/-- What a search holds as long as it has met no exact match. At the target
itself there is a match that is not held, since no quality but zero would
go with it. -/
structure Ranking (c : TargetCondition) (q : Quest) (s : Search) : Prop where
  inexact : ∀ v ∈ s.visits, ¬ c.MatchesExactly q.world q.start v.position q.params
  farthest : ∀ v ∈ s.visits, c.Matches q.world q.start v.position q.params →
    (v.position.chebyshev c.target : Int) ≤ s.best
  unmatched : s.found = none → s.best = 0
  matched : ∀ i, s.found = some i → 0 < s.best ∧ ∃ v, v.node = i ∧ s.Foremost c q v

/-- What a search for a target holds at any time. -/
structure Judged (c : TargetCondition) (q : Quest) (s : Search) : Prop where
  exact : s.finished = true → ∃ v ∈ s.visits, s.found = some v.node ∧
    c.MatchesExactly q.world q.start v.position q.params
  ranking : s.finished = false → s.Ranking c q

variable {c : TargetCondition}

theorem Foremost.keeps {v : Visit} (h : s.Foremost c q v) (hkeeps : s.Keeps s') :
    s'.Foremost c q v where
  mem := hkeeps.visits ▸ h.mem
  matching := h.matching
  distance := h.distance.trans hkeeps.best.symm
  cheapest := by
    intro u hu hmatches hdistance m n hm hn
    rw [hkeeps.visits] at hu
    rw [hkeeps.best] at hdistance
    rw [hkeeps.kept v h.mem] at hm
    rw [hkeeps.kept u hu] at hn
    exact h.cheapest u hu hmatches hdistance m n hm hn

theorem Ranking.keeps (h : s.Ranking c q) (hkeeps : s.Keeps s') : s'.Ranking c q where
  inexact := hkeeps.visits ▸ h.inexact
  farthest := by
    rw [hkeeps.visits, hkeeps.best]
    exact h.farthest
  unmatched := by
    rw [hkeeps.found, hkeeps.best]
    exact h.unmatched
  matched := by
    intro i hi
    rw [hkeeps.found] at hi
    obtain ⟨hpos, v, hv, hforemost⟩ := h.matched i hi
    exact ⟨hkeeps.best ▸ hpos, v, hv, hforemost.keeps hkeeps⟩

theorem Judged.keeps (h : s.Judged c q) (hkeeps : s.Keeps s') : s'.Judged c q where
  exact := by
    rw [hkeeps.finished, hkeeps.visits, hkeeps.found]
    exact h.exact
  ranking := by
    rw [hkeeps.finished]
    exact fun hfinished => (h.ranking hfinished).keeps hkeeps

theorem judged_start (c : TargetCondition) (q : Quest) (p : Pool) :
    Judged c q { pool := p } :=
  ⟨nofun, fun _ => ⟨nofun, nofun, fun _ => rfl, nofun⟩⟩

theorem ask_eq {current : NodeIndex} {n : Node} {verdict : Verdict}
    (h : q.condition.judge q.world q.start (n.position q.start.z) q.params s.best = verdict) :
    s.ask q current n =
      { s with
        best := verdict.best
        found := if verdict.accepted then some current else s.found
        finished := verdict.accepted && verdict.best == 0
        visits := ⟨current, n.position q.start.z, verdict⟩ :: s.visits } := by
  subst h
  rfl

namespace Ranking

theorem best_nonneg (h : s.Ranking c q) : 0 ≤ s.best := by
  cases hfound : s.found with
  | none => exact Int.le_of_eq (h.unmatched hfound).symm
  | some i => exact Int.le_of_lt (h.matched i hfound).1

/-- Next to the target any match would have been exact. -/
theorem best_of_one (h : s.Ranking c q) (hone : q.params.maxTarget.toInt = 1) : s.best = 0 := by
  cases hfound : s.found with
  | none => exact h.unmatched hfound
  | some i =>
      obtain ⟨-, v, -, hforemost⟩ := h.matched i hfound
      exact absurd ⟨hforemost.matching, Or.inr hone⟩ (h.inexact v hforemost.mem)

section Asking

variable {current : NodeIndex} {n : Node}

theorem ask_exact (h : s.Ranking c q) (hq : q.condition = c.toPathCondition)
    (hexact : c.MatchesExactly q.world q.start (n.position q.start.z) q.params) :
    (s.ask q current n).Judged c q := by
  have hverdict : q.condition.judge q.world q.start (n.position q.start.z) q.params s.best =
      ⟨true, 0⟩ := by
    rw [hq]
    exact TargetCondition.judge_of_exact hexact h.best_of_one
  rw [ask_eq hverdict]
  exact ⟨fun _ => ⟨_, List.mem_cons_self .., rfl, hexact⟩, nofun⟩

/-- A match farther than all before it becomes the best one. -/
theorem ask_farther (h : s.Ranking c q)
    (hmatches : c.Matches q.world q.start (n.position q.start.z) q.params)
    (hinexact : ¬ c.MatchesExactly q.world q.start (n.position q.start.z) q.params)
    (hfarther : s.best < ((n.position q.start.z).chebyshev c.target : Int))
    (hverdict : q.condition.judge q.world q.start (n.position q.start.z) q.params s.best =
      ⟨true, (n.position q.start.z).chebyshev c.target⟩) :
    (s.ask q current n).Judged c q := by
  have hpos := Int.lt_of_le_of_lt h.best_nonneg hfarther
  have hunfinished : (((n.position q.start.z).chebyshev c.target : Int) == 0) = false :=
    beq_eq_false_iff_ne.mpr (Int.ne_of_gt hpos)
  rw [ask_eq hverdict]
  refine ⟨fun hfinished => absurd (hunfinished.symm.trans hfinished) nofun, fun _ => ?_⟩
  refine ⟨?_, ?_, nofun, ?_⟩
  · intro v hv
    rcases List.mem_cons.mp hv with rfl | hv
    · exact hinexact
    · exact h.inexact v hv
  · intro v hv hv'
    rcases List.mem_cons.mp hv with rfl | hv
    · exact Int.le_refl _
    · exact Int.le_trans (h.farthest v hv hv') (Int.le_of_lt hfarther)
  · rintro i ⟨⟩
    refine ⟨hpos, _, rfl, List.mem_cons_self .., hmatches, rfl, ?_⟩
    intro u hu hu' hdistance m l hm hl
    rcases List.mem_cons.mp hu with rfl | hu
    · obtain rfl := Option.some.inj (hm.symm.trans hl)
      exact UInt32.le_refl _
    · -- the earlier matches were nearer
      have hnearer := h.farthest u hu hu'
      exact absurd hdistance (Int.ne_of_lt (Int.lt_of_le_of_lt hnearer hfarther))

/-- A cell turned down leaves the best match as it was: one at the same
distance was selected later, and so costs no less. -/
theorem ask_rejected (h : s.Ranking c q) (hvalid : s.Valid q)
    (hselect : s.select? q = some current)
    (hinexact : ¬ c.MatchesExactly q.world q.start (n.position q.start.z) q.params)
    (hnearer : c.Matches q.world q.start (n.position q.start.z) q.params →
      ((n.position q.start.z).chebyshev c.target : Int) ≤ s.best)
    (hverdict : q.condition.judge q.world q.start (n.position q.start.z) q.params s.best =
      ⟨false, s.best⟩) :
    (s.ask q current n).Judged c q := by
  have hopen := (Pool.best?_eq_some (select?_eq_some hselect).2.2.2).1
  rw [ask_eq hverdict]
  refine ⟨nofun, fun _ => ⟨?_, ?_, h.unmatched, ?_⟩⟩
  · intro v hv
    rcases List.mem_cons.mp hv with rfl | hv
    · exact hinexact
    · exact h.inexact v hv
  · intro v hv hv'
    rcases List.mem_cons.mp hv with rfl | hv
    · exact hnearer hv'
    · exact h.farthest v hv hv'
  · intro i hi
    obtain ⟨hpos, v, hvi, hforemost⟩ := h.matched i hi
    refine ⟨hpos, v, hvi, List.mem_cons_of_mem _ hforemost.mem, hforemost.matching,
      hforemost.distance, ?_⟩
    intro u hu hu' hdistance m l hm hl
    rcases List.mem_cons.mp hu with rfl | hu
    · exact hvalid.sound.grows.cheapest v.node current m l (List.mem_map_of_mem hforemost.mem) hm
        hopen hl
    · exact hforemost.cheapest u hu hu' hdistance m l hm hl

theorem ask (h : s.Ranking c q) (hq : q.condition = c.toPathCondition) (hvalid : s.Valid q)
    (hselect : s.select? q = some current) : (s.ask q current n).Judged c q := by
  by_cases hexact : c.MatchesExactly q.world q.start (n.position q.start.z) q.params
  · exact h.ask_exact hq hexact
  by_cases hmatches : c.Matches q.world q.start (n.position q.start.z) q.params
  · have hjudge := TargetCondition.judge_of_inexact hmatches hexact s.best
    by_cases hfarther : s.best < ((n.position q.start.z).chebyshev c.target : Int)
    · rw [if_pos hfarther] at hjudge
      exact h.ask_farther hmatches hexact hfarther (hq ▸ hjudge)
    · rw [if_neg hfarther] at hjudge
      exact h.ask_rejected hvalid hselect hexact (fun _ => Int.not_lt.mp hfarther)
        (hq ▸ hjudge)
  · have hjudge : c.judge q.world q.start (n.position q.start.z) q.params s.best =
        ⟨false, s.best⟩ := TargetCondition.judge_of_not_matches hmatches
    exact h.ask_rejected hvalid hselect hexact (fun hmatches' => absurd hmatches' hmatches)
      (hq ▸ hjudge)

end Asking

end Ranking

theorem Judged.run (h : s.Judged c q) (hq : q.condition = c.toPathCondition) (hvalid : s.Valid q)
    (turns : Nat) : (Search.run q turns s).Judged c q := by
  refine (run_induction (P := fun s => s.Valid q ∧ s.Judged c q) ?_ ⟨hvalid, h⟩ turns).2
  rintro t current n ⟨hvalid, h⟩ hselect hn
  have hasked : (t.ask q current n).Judged c q :=
    (h.ranking (select?_eq_some hselect).1).ask hq hvalid hselect
  exact ⟨hvalid.turn hselect, hasked.keeps (hvalid.turn_keeps hselect hn)⟩

/-! ## The end of a search -/

section Closed

variable (hsound : s.Sound q) (hall : s.pool.frontier = [])

include hsound hall

theorem Ranking.inexact_of_reaches (h : s.Ranking c q) {p : Position} (hp : q.Reaches p) :
    ¬ c.MatchesExactly q.world q.start p q.params := by
  obtain ⟨v, hv, rfl⟩ := hsound.visited_of_reaches hall hp
  exact h.inexact v hv

theorem Ranking.farthest_of_reaches (h : s.Ranking c q) {p : Position} (hp : q.Reaches p)
    (hmatches : c.Matches q.world q.start p q.params) :
    (p.chebyshev c.target : Int) ≤ s.best := by
  obtain ⟨v, hv, rfl⟩ := hsound.visited_of_reaches hall hp
  exact h.farthest v hv hmatches

theorem Foremost.le_routeCost {v : Visit} (h : s.Foremost c q v) {n : Node}
    (hn : s.pool.nodes[v.node]? = some n) {directions : List Direction} {entered : List Position}
    (hroute : q.Admissible directions entered)
    (hmatches : c.Matches q.world q.start (q.start.endOf entered) q.params)
    (hdistance : ((q.start.endOf entered).chebyshev c.target : Int) = s.best) :
    n.f.toNat ≤ q.routeCost directions entered := by
  obtain ⟨u, hu, m, hm, hposition, hf⟩ := hsound.visited_of_route hall hroute
  rw [← hposition] at hmatches hdistance
  exact Nat.le_trans
    (UInt32.le_iff_toNat_le.mp (h.cheapest u hu hmatches hdistance n m hn hm)) hf

/-- The route to the best match, as cheap as any to a match that far away. -/
theorem Foremost.exists_route {v : Visit} (h : s.Foremost c q v) :
    ∃ route : Route, s.pool.route? v.node q.start.z = some route ∧
      q.Reaches route.destination ∧ c.Matches q.world q.start route.destination q.params ∧
      (route.destination.chebyshev c.target : Int) = s.best ∧
      ∃ least, IsLeast {cost | ∃ directions entered, q.Admissible directions entered ∧
        q.start.endOf entered ∈ {p | c.Matches q.world q.start p q.params ∧
          p.chebyshev c.target = route.destination.chebyshev c.target} ∧
        q.routeCost directions entered = cost} least ∧
        route.cost.toNat = min 4294967295 least := by
  have hreaches := hsound.reaches h.mem
  have hmatches := h.matching
  have hdistance := h.distance
  obtain ⟨n, route, entered, hn, hroute, hposition, hdestination, hcost, htrail⟩ :=
    hsound.exists_route h.mem
  rw [hposition] at hreaches hmatches hdistance
  refine ⟨route, hroute, hreaches, hmatches, hdistance, ?_⟩
  rw [← hcost]
  refine htrail.isLeast _ ⟨hdestination ▸ hmatches, by rw [hdestination]⟩ ?_
  rintro directions' entered' hroute' ⟨hends, hsame⟩
  exact h.le_routeCost hsound hall hn hroute' hends ((congrArg Nat.cast hsame).trans hdistance)

end Closed

end Search

/-! ## The answer of a search -/

namespace Pathfinder

theorem Ready.judged {f : Pathfinder} (h : f.Ready) {c : TargetCondition} {q : Quest}
    (hq : q.condition = c.toPathCondition) : (f.search q).Judged c q :=
  (Search.judged_start c q _).run hq (h.valid_restart q) _

/-- A search that neither ran out of nodes nor spent its budget answers by
the cells in reach alone. If one of them matches exactly, the route leads
to an exact match. Otherwise it leads to a cell of the band farthest from
the target, and as cheaply as any route to a cell of the band that far
away, unless there is none but the target itself; then there is no route. -/
theorem find_complete {config : SearchConfig} {f f' : Pathfinder} (hf : f.InUse config)
    {w : World} {mover : Occupant} {start : Position} (hstart : start.hasValidFloor = true)
    {c : TargetCondition} {params : SearchParams} {report : SearchReport}
    (hfind : f.find w mover start c.toPathCondition params = some (f', report))
    (hroom : f'.lastSearch.exhausted = false)
    (hbudget : params.maxSearch ≠ 0 ∨ f'.lastSearch.closed < config.closedBudget) :
    let q : Quest := ⟨config, w, mover, start, c.toPathCondition, params⟩
    ((∃ p, q.Reaches p ∧ c.MatchesExactly w start p params) →
      ∃ route, report.route = some route ∧ q.Reaches route.destination ∧
        c.MatchesExactly w start route.destination params) ∧
    ((∀ p, q.Reaches p → ¬ c.MatchesExactly w start p params) →
      ((∃ p, q.Reaches p ∧ c.Matches w start p params ∧ 1 ≤ p.chebyshev c.target) →
        ∃ route, report.route = some route ∧ q.Reaches route.destination ∧
          c.Matches w start route.destination params ∧
          (∀ p, q.Reaches p → c.Matches w start p params →
            p.chebyshev c.target ≤ route.destination.chebyshev c.target) ∧
          ∃ least, IsLeast {cost | ∃ directions entered, q.Admissible directions entered ∧
            start.endOf entered ∈ {p | c.Matches w start p params ∧
              p.chebyshev c.target = route.destination.chebyshev c.target} ∧
            q.routeCost directions entered = cost} least ∧
            route.cost.toNat = min 4294967295 least) ∧
      ((∀ p, q.Reaches p → c.Matches w start p params → p.chebyshev c.target = 0) →
        report.route = none)) := by
  intro q
  obtain ⟨rfl, hready⟩ := hf.ready
  obtain ⟨hvalid, -, hover⟩ := hready.search (q := q) rfl
  have hsound := hvalid.sound
  have hjudged : (f.search q).Judged c q := hready.judged rfl
  obtain ⟨hword, rfl, hreport⟩ := find_eq_some hstart hfind
  have hanswer : report.route =
      (f.search q).found.bind fun i => (f.search q).pool.route? i start.z :=
    congrArg SearchReport.route hreport
  have hgoing : (f.search q).halt = none := by
    have hfull : (f.search q).halt ≠ some .full := beq_eq_false_iff_ne.mp hroom
    cases hhalt : (f.search q).halt with
    | none => rfl
    | some halt =>
        cases halt with
        | full => exact absurd hhalt hfull
        | overflow => exact absurd hhalt hword
  have hunspent : (f.search q).isSpent q = false := by
    rw [Search.isSpent, Bool.and_eq_false_iff, decide_eq_false_iff_not, decide_eq_false_iff_not]
    exact hbudget.imp_right Nat.not_le.mpr
  cases hfinished : (f.search q).finished with
  | true =>
      obtain ⟨v, hv, hfound, hexact⟩ := hjudged.exact hfinished
      have hreaches := hsound.reaches hv
      obtain ⟨n, route, entered, -, hroute, hposition, -⟩ := hsound.exists_route hv
      rw [hfound] at hanswer
      rw [hposition] at hreaches hexact
      refine ⟨fun _ => ⟨route, hanswer.trans hroute, hreaches, hexact⟩, fun hnone => ?_⟩
      exact absurd hexact (hnone _ hreaches)
  | false =>
      have hranking := hjudged.ranking hfinished
      have hall := hvalid.frontier_of_over hover hfinished hgoing hunspent
      constructor
      · rintro ⟨p, hp, hexact⟩
        exact absurd hexact (hranking.inexact_of_reaches hsound hall hp)
      intro _
      cases hfound : (f.search q).found with
      | none =>
          rw [hfound] at hanswer
          have hzero := hranking.unmatched hfound
          refine ⟨?_, fun _ => hanswer⟩
          rintro ⟨p, hp, hmatches, hfar⟩
          have hle := hranking.farthest_of_reaches hsound hall hp hmatches
          omega
      | some i =>
          obtain ⟨hpos, v, rfl, hforemost⟩ := hranking.matched i hfound
          obtain ⟨route, hroute, hreaches, hmatches, hdistance, hleast⟩ :=
            hforemost.exists_route hsound hall
          rw [hfound] at hanswer
          constructor
          · intro _
            refine ⟨route, hanswer.trans hroute, hreaches, hmatches, fun p hp hp' => ?_, hleast⟩
            have hle := hranking.farthest_of_reaches hsound hall hp hp'
            omega
          · intro hnear
            have hzero := hnear _ hreaches hmatches
            omega

/-- In a corridor that ends before the far edge of the band, the route
leads to the end of the corridor. -/
theorem find_complete_unreachable_edge :
    let floor : Cell := .onGround { kind := 102 }
    let w := ((World.empty {}).run
      [.setCell ⟨7, 5, 7⟩ floor .merge, .setCell ⟨8, 5, 7⟩ floor .merge,
        .setCell ⟨9, 5, 7⟩ floor .merge, .setCell ⟨10, 5, 7⟩ floor .merge,
        .setCell ⟨11, 5, 7⟩ floor .merge, .setCell ⟨12, 5, 7⟩ floor .merge]).1
    let c : TargetCondition := ⟨⟨10, 5, 7⟩⟩
    let params : SearchParams := { minTarget := 2, maxTarget := 4, clearSight := false }
    let route : Route := ⟨[.west, .west], ⟨7, 5, 7⟩, 20⟩
    let q : Quest := ⟨{}, w, .creature, ⟨9, 5, 7⟩, c.toPathCondition, params⟩
    (fresh {}).InUse {} ∧ Position.hasValidFloor ⟨9, 5, 7⟩ = true ∧
      ∃ f' report,
        (fresh {}).find w .creature ⟨9, 5, 7⟩ c.toPathCondition params = some (f', report) ∧
        f'.lastSearch.exhausted = false ∧ f'.lastSearch.closed < 100 ∧
        report.route = some route ∧
        ∀ p, q.Reaches p → c.Matches w ⟨9, 5, 7⟩ p params → p.chebyshev c.target ≤ 3 := by
  intro floor w c params route q
  have hf : (fresh {}).InUse {} := .created rfl
  have hstart : Position.hasValidFloor ⟨9, 5, 7⟩ = true := by decide
  have hanswer : ((fresh {}).find w .creature ⟨9, 5, 7⟩ c.toPathCondition params).map
      (fun answer => (answer.1.lastSearch, answer.2.route)) =
        some (⟨6, 6, 33, false⟩, some route) := by decide +kernel
  obtain ⟨⟨f', report⟩, hfind, hanswer⟩ := Option.map_eq_some_iff.mp hanswer
  obtain ⟨hstats, hroute⟩ := Prod.mk.inj hanswer
  have hroom : f'.lastSearch.exhausted = false := congrArg SearchStats.exhausted hstats
  have hbudget : f'.lastSearch.closed < 100 := by
    rw [show f'.lastSearch = _ from hstats]
    decide
  obtain ⟨hexact, hfallback⟩ := find_complete hf hstart hfind hroom (Or.inr hbudget)
  have hinexact : ∀ p, q.Reaches p → ¬ c.MatchesExactly w ⟨9, 5, 7⟩ p params := by
    intro p hp hp'
    obtain ⟨route', hroute', -, hedge⟩ := hexact ⟨p, hp, hp'⟩
    obtain rfl := Option.some.inj (hroute.symm.trans hroute')
    exact absurd hedge.exact (by decide)
  have hreaches : q.Reaches ⟨7, 5, 7⟩ := by
    refine ⟨[.west, .west], [⟨8, 5, 7⟩, ⟨7, 5, 7⟩], ⟨by decide, nofun, ?_⟩, rfl⟩
    decide +kernel
  have hmatches : c.Matches w ⟨9, 5, 7⟩ ⟨7, 5, 7⟩ params :=
    ⟨by decide, nofun, by decide, by decide⟩
  obtain ⟨route', hroute', -, -, hfarthest, -⟩ :=
    (hfallback hinexact).1 ⟨_, hreaches, hmatches, by decide⟩
  obtain rfl := Option.some.inj (hroute.symm.trans hroute')
  exact ⟨hf, hstart, f', report, hfind, hroom, hbudget, hroute, hfarthest⟩

end Pathfinder

end TileWorld
