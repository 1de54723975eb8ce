import TileWorld.Proofs.RouteSoundness
import TileWorld.Proofs.SearchOrder

/-!
# The bounds of a search

A search of a pathfinder in use ends within as many turns as its pool has
room for nodes, with or without a limit of distance: every turn puts a new
node on record (`Valid.over_or_length`), and a pool never holds more nodes
than fit (`Accounted.over`). What a search spends is kept in the accounts
of `Accounted`, from which the statistics that are left of it derive
their bounds (`find_terminates`).
-/

namespace TileWorld

/-! ## What an expansion spends -/

/-- How many neighbor offsets a node other than the start expands. -/
def Quest.width (q : Quest) : Nat :=
  if q.params.allowDiagonal then 5 else 3

/-- How many neighbor offsets a node expands. -/
def Quest.fanout (q : Quest) (i : NodeIndex) : Nat :=
  if i = 0 then 8 else q.width

theorem Quest.width_le (q : Quest) : q.width ≤ 8 := by
  unfold width
  split <;> decide

/-- Of distinct nodes only one is the start. -/
theorem Quest.sum_fanout (q : Quest) {order : List NodeIndex} (h : order.Nodup) :
    (order.map q.fanout).sum =
      q.width * order.length + if 0 ∈ order then 8 - q.width else 0 := by
  induction order with
  | nil => rfl
  | cons i rest ih =>
      obtain ⟨hi, hrest⟩ := List.nodup_cons.mp h
      have hwidth := q.width_le
      rw [List.map_cons, List.sum_cons, List.length_cons, ih hrest, Nat.mul_succ, fanout]
      by_cases hroot : i = 0
      · subst hroot
        rw [if_pos rfl, if_neg hi, if_pos (List.mem_cons_self ..)]
        omega
      · have hmem : 0 ∈ i :: rest ↔ 0 ∈ rest := by
          rw [List.mem_cons]
          exact or_iff_right (Ne.symm hroot)
        rw [if_neg hroot]
        simp only [hmem]
        omega

theorem Quest.sum_fanout_le (q : Quest) {order : List NodeIndex} (h : order.Nodup) {nodes : Nat}
    (hnodes : order.length ≤ nodes) :
    (order.map q.fanout).sum ≤ 8 + q.width * (nodes - 1) := by
  rw [q.sum_fanout h]
  have hwidth := q.width_le
  cases order with
  | nil => exact Nat.zero_le _
  | cons i rest =>
      have hrest : q.width * rest.length ≤ q.width * (nodes - 1) :=
        Nat.mul_le_mul_left _ (Nat.le_sub_one_of_lt hnodes)
      rw [List.length_cons, Nat.mul_succ]
      split <;> omega

theorem length_neighbors {q : Quest} {p : Pool} {order : List NodeIndex} {current : NodeIndex}
    {n : Node} (hg : Grows q p (current :: order)) (hn : p.nodes[current]? = some n) :
    (p.neighbors n q.params.allowDiagonal).length ≤ q.fanout current := by
  rcases Search.neighbors_cases hg hn with
    ⟨rfl, hall⟩ | ⟨hroot, -, -, -, -, side, -, -, -, -, hexpanded⟩
  · rw [hall]
    exact Nat.le_refl 8
  · rw [hexpanded, Quest.fanout, if_neg hroot]
    exact List.length_take_le ..

namespace Search

variable {q : Quest} {s s' s'' : Search}

/-- What becomes of the accounts of a search in a part of an expansion that
looks at so many neighbors. -/
structure Spends (s s' : Search) (looks : Nat) : Prop where
  capacity : s'.pool.capacity = s.pool.capacity
  closed : s'.pool.closed ≤ s.pool.closed
  examined : s'.examined ≤ s.examined + looks
  full : s'.halt = some .full → s.halt = some .full ∨ s'.pool.isFull = true

namespace Spends

theorem refl (s : Search) (looks : Nat) : s.Spends s looks :=
  ⟨rfl, Nat.le_refl _, Nat.le_add_right .., Or.inl⟩

theorem trans {looks looks' : Nat} (h : s.Spends s' looks) (h' : s'.Spends s'' looks')
    (hgoing : s'.halt = some .full → s.halt = some .full) : s.Spends s'' (looks + looks') where
  capacity := h'.capacity.trans h.capacity
  closed := Nat.le_trans h'.closed h.closed
  examined := by
    have hfirst := h.examined
    have hsecond := h'.examined
    omega
  full := fun hdone => (h'.full hdone).imp_left hgoing

theorem mono {looks looks' : Nat} (h : s.Spends s' looks) (hle : looks ≤ looks') :
    s.Spends s' looks' :=
  ⟨h.capacity, h.closed, Nat.le_trans h.examined (Nat.add_le_add_left hle _), h.full⟩

end Spends

section Expanding

variable (q) (s) (current : NodeIndex) (n : Node)

theorem reach_spends (step : UInt32) (p : Position) :
    s.Spends (s.reach q current n step p) 0 := by
  unfold reach
  split
  · split
    · exact ⟨rfl, Nat.le_refl _, Nat.le_refl _, nofun⟩
    · split
      · exact ⟨Pool.capacity_reopen .., Pool.closed_reopen_le .., Nat.le_refl _, Or.inl⟩
      · exact .refl s 0
  · split
    · exact .refl s 0
    · split
      · exact ⟨rfl, Nat.le_refl _, Nat.le_refl _, nofun⟩
      · split
        · rename_i hfull
          exact ⟨rfl, Nat.le_refl _, Nat.le_refl _, fun _ => Or.inr hfull⟩
        · exact ⟨rfl, Nat.le_refl _, Nat.le_refl _, Or.inl⟩

theorem examine_spends (offset : Int × Int) : s.Spends (s.examine q current n offset) 1 := by
  have hlooked : s.Spends { s with examined := s.examined + 1 } 1 :=
    ⟨rfl, Nat.le_refl _, Nat.le_refl _, Or.inl⟩
  unfold examine
  dsimp only
  split
  · exact hlooked
  · split
    · exact hlooked.trans (reach_spends q _ current n _ _) id
    · exact hlooked

theorem expand_spends (offsets : List (Int × Int)) :
    s.Spends (s.expand q current n offsets) offsets.length := by
  induction offsets generalizing s with
  | nil => exact .refl s 0
  | cons offset rest ih =>
      have hfirst := examine_spends q s current n offset
      rw [expand]
      cases hhalt : (s.examine q current n offset).halt with
      | some halt => exact hfirst.mono (Nat.le_add_left ..)
      | none =>
          have hgoing : (s.examine q current n offset).halt = some .full → s.halt = some .full :=
            fun hdone => (Option.some_ne_none _ (hdone.symm.trans hhalt)).elim
          exact (hfirst.trans (ih _) hgoing).mono (Nat.le_of_eq (Nat.add_comm ..))

end Expanding

/-! ## The accounts of a search -/

/-- What a search has spent is covered by its limits and by the questions
on record. -/
structure Accounted (q : Quest) (s : Search) : Prop where
  capacity : s.pool.capacity = q.config.nodeCapacity
  budget : q.params.maxSearch = 0 → s.pool.closed ≤ q.config.closedBudget
  examined : s.examined ≤ ((s.visits.map (·.node)).map q.fanout).sum
  full : s.halt = some .full → s.pool.isFull = true

theorem accounted_restart {p : Pool} (h : p.capacity = q.config.nodeCapacity) :
    Accounted q { pool := p.restart q.start.x q.start.y } := by
  have hrestart : (p.restart q.start.x q.start.y).capacity = p.capacity ∧
      (p.restart q.start.x q.start.y).closed = 0 := by
    unfold Pool.restart
    dsimp only
    split <;> exact ⟨rfl, rfl⟩
  exact ⟨hrestart.1.trans h, fun _ => Nat.le_trans (Nat.le_of_eq hrestart.2) (Nat.zero_le _),
    Nat.le_refl _, nofun⟩

theorem isSpent_eq_false (h : s.isSpent q = false) (hlimit : q.params.maxSearch = 0) :
    s.pool.closed < q.config.closedBudget := by
  simpa [isSpent, hlimit] using h

namespace Accounted

theorem turn (h : s.Accounted q) (hvalid : s.Valid q) {current : NodeIndex}
    (hselect : s.select? q = some current) {n : Node} (hn : s.pool.nodes[current]? = some n) :
    (s.turn q current).Accounted q := by
  obtain ⟨-, hgoing, hbudget, hbest⟩ := select?_eq_some hselect
  obtain ⟨hask, hprogress, -⟩ := hvalid.expandAll hselect hn
  have hopen := hprogress.pool.opened current (Pool.best?_eq_some hbest).1
  have hasked : (s.ask q current n).Accounted q :=
    ⟨h.capacity, h.budget, Nat.le_trans h.examined (Nat.le_add_left ..), h.full⟩
  have hspends := (expand_spends q (s.ask q current n) current n
    (s.pool.neighbors n q.params.allowDiagonal)).mono (length_neighbors hask.grows hn)
  have hclosed : q.params.maxSearch = 0 →
      (s.expandAll q current n).pool.closed < q.config.closedBudget :=
    fun hlimit => Nat.lt_of_le_of_lt hspends.closed (isSpent_eq_false hbudget hlimit)
  have hcapacity := hspends.capacity.trans hasked.capacity
  have hexamined : (s.expandAll q current n).examined ≤
      (((s.expandAll q current n).visits.map (·.node)).map q.fanout).sum := by
    rw [hprogress.visits]
    have hlooks : (s.expandAll q current n).examined ≤ s.examined + q.fanout current :=
      hspends.examined
    have hbefore := h.examined
    show _ ≤ q.fanout current + ((s.visits.map (·.node)).map q.fanout).sum
    omega
  rcases turn_cases q hn with ⟨-, hturn⟩ | ⟨-, ⟨-, hturn⟩ | ⟨hgoes, hturn⟩⟩ <;> rw [hturn]
  · exact hasked
  · refine ⟨hcapacity, fun hlimit => Nat.le_of_lt (hclosed hlimit), hexamined, fun hdone => ?_⟩
    exact (hspends.full hdone).resolve_left fun hbefore => nomatch hgoing.symm.trans hbefore
  · rw [Pool.close_of_mem hopen]
    exact ⟨hcapacity, hclosed, hexamined, fun hdone => nomatch hgoes.symm.trans hdone⟩

theorem run (h : s.Accounted q) (hvalid : s.Valid q) (turns : Nat) :
    (Search.run q turns s).Accounted q := by
  refine (run_induction (P := fun s => s.Valid q ∧ s.Accounted q) ?_ ⟨hvalid, h⟩ turns).2
  rintro t current n ⟨hvalid, h⟩ hselect hn
  exact ⟨hvalid.turn hselect, h.turn hvalid hselect hn⟩

theorem size_le (h : s.Accounted q) (hvalid : s.Valid q) :
    s.pool.size ≤ q.config.nodeCapacity :=
  h.capacity ▸ hvalid.sound.grows.pool.room.1

theorem examined_le (h : s.Accounted q) (hvalid : s.Valid q) :
    s.examined ≤ 8 + q.width * (s.pool.size - 1) := by
  have hg := hvalid.sound.grows
  exact Nat.le_trans h.examined (q.sum_fanout_le hg.nodup hg.length_le)

theorem size_eq_of_full (h : s.Accounted q) (hvalid : s.Valid q)
    (hmax : q.config.nodeCapacity ≤ maxNodeCapacity) (hdone : s.halt = some .full) :
    s.pool.size = q.config.nodeCapacity := by
  have hfull := h.full hdone
  have hcapacity := h.capacity
  have hsize : s.pool.nodes.size ≤ q.config.nodeCapacity := h.size_le hvalid
  simp only [Pool.isFull, Bool.or_eq_true, decide_eq_true_eq] at hfull
  show s.pool.nodes.size = q.config.nodeCapacity
  omega

end Accounted

/-! ## The end of a search -/

/-- As long as a search goes on, every turn asks one question. -/
theorem Valid.over_or_length (h : s.Valid q) (turns : Nat) :
    (Search.run q turns s).select? q = none ∨
      (Search.run q turns s).visits.length = s.visits.length + turns := by
  induction turns generalizing s with
  | zero => exact Or.inr rfl
  | succ turns ih =>
      cases hselect : s.select? q with
      | none =>
          rw [run_of_over hselect]
          exact Or.inl hselect
      | some current =>
          obtain ⟨-, n, hn, -⟩ := Pool.best?_eq_some (select?_eq_some hselect).2.2.2
          have hlength : (s.turn q current).visits.length = s.visits.length + 1 :=
            congrArg List.length (h.turn_keeps hselect hn).visits
          rw [run_succ hselect]
          exact (ih (h.turn hselect)).imp_right fun hlater => by omega

theorem Accounted.over (h : s.Accounted q) (hvalid : s.Valid q) :
    (Search.run q q.config.nodeCapacity s).select? q = none := by
  rcases hvalid.over_or_length q.config.nodeCapacity with hover | hlength
  · exact hover
  cases hselect : (Search.run q q.config.nodeCapacity s).select? q with
  | none => rfl
  | some current =>
      -- one more node would be on record than the pool has room for
      have hend := hvalid.run q.config.nodeCapacity
      obtain ⟨hfinished, hgoing, -, hbest⟩ := select?_eq_some hselect
      have hmore := (hend.sound.grows.select (hend.closed hfinished hgoing) hbest).length_le
      have hsize := (h.run hvalid q.config.nodeCapacity).size_le hend
      rw [List.length_cons, List.length_map, hlength] at hmore
      rw [Pool.size] at hsize
      omega

end Search

/-! ## Pathfinders in use -/

theorem SearchConfig.capacity_of_check {c : SearchConfig} (h : c.check = .ok ()) :
    0 < c.nodeCapacity ∧ c.nodeCapacity ≤ maxNodeCapacity := by
  unfold check at h
  split at h
  · cases h
  · omega

/-- A pathfinder created from settings that pass their check, after any
number of searches. -/
inductive Pathfinder.InUse (config : SearchConfig) : Pathfinder → Prop where
  | created {f : Pathfinder} (h : create config = .ok f) : InUse config f
  | searched {f f' : Pathfinder} (h : InUse config f) {w : World} {mover : Occupant}
      {start : Position} {condition : PathCondition} {params : SearchParams}
      {report : SearchReport} (hfind : f.find w mover start condition params = some (f', report)) :
      InUse config f'

namespace Pathfinder

/-- The pool of a pathfinder has the room that its settings promise. -/
structure Ready (f : Pathfinder) : Prop where
  capacity : f.pool.capacity = f.config.nodeCapacity
  room : 0 < f.config.nodeCapacity ∧ f.config.nodeCapacity ≤ maxNodeCapacity

theorem Ready.isFull_empty {f : Pathfinder} (h : f.Ready) :
    (Pool.empty f.pool.capacity).isFull = false := by
  have hcapacity := h.capacity
  have hroom := h.room
  simp only [Pool.isFull, Pool.empty, Bool.or_eq_false_iff, decide_eq_false_iff_not,
    List.size_toArray, List.length_nil]
  exact ⟨by omega, by decide⟩

theorem Ready.valid_restart {f : Pathfinder} (h : f.Ready) (q : Quest) :
    Search.Valid q { pool := f.pool.restart q.start.x q.start.y } :=
  Search.valid_restart q h.isFull_empty

theorem Ready.search {f : Pathfinder} (h : f.Ready) {q : Quest} (hq : q.config = f.config) :
    (f.search q).Valid q ∧ (f.search q).Accounted q ∧ (f.search q).select? q = none := by
  have hvalid := h.valid_restart q
  have haccounted := Search.accounted_restart (q := q) (hq ▸ h.capacity)
  have hover := haccounted.over hvalid
  rw [hq] at hover
  exact ⟨hvalid.run _, haccounted.run hvalid _, hover⟩

theorem find_of_validFloor (f : Pathfinder) (w : World) (mover : Occupant) {start : Position}
    (hstart : start.hasValidFloor = true) (condition : PathCondition) (params : SearchParams) :
    f.find w mover start condition params =
      let s := f.search ⟨f.config, w, mover, start, condition, params⟩
      if s.halt = some .overflow then none
      else
        some ({ f with pool := s.pool, lastSearch := s.stats },
          { route := s.found.bind fun i => s.pool.route? i start.z
            visits := s.visits.reverse }) := by
  unfold find
  rw [hstart]
  rfl

section Answers

variable {f f' : Pathfinder} {w : World} {mover : Occupant} {start : Position}
  {condition : PathCondition} {params : SearchParams} {report : SearchReport}

/-- What a search leaves behind if it does not fail. -/
theorem find_eq_some (hstart : start.hasValidFloor = true)
    (h : f.find w mover start condition params = some (f', report)) :
    let s := f.search ⟨f.config, w, mover, start, condition, params⟩
    s.halt ≠ some .overflow ∧ f' = { f with pool := s.pool, lastSearch := s.stats } ∧
      report =
        { route := s.found.bind fun i => s.pool.route? i start.z
          visits := s.visits.reverse } := by
  intro s
  rw [f.find_of_validFloor w mover hstart, Option.ite_none_left_eq_some] at h
  obtain ⟨hword, hanswer⟩ := h
  obtain ⟨hf', hreport⟩ := Prod.mk.inj (Option.some.inj hanswer)
  exact ⟨hword, hf'.symm, hreport.symm⟩

theorem find_eq_none_iff (hstart : start.hasValidFloor = true) :
    f.find w mover start condition params = none ↔
      (f.search ⟨f.config, w, mover, start, condition, params⟩).halt = some .overflow := by
  rw [f.find_of_validFloor w mover hstart, ite_eq_left_iff]
  simp only [reduceCtorEq, imp_false, Decidable.not_not]

end Answers

theorem InUse.ready {config : SearchConfig} {f : Pathfinder} (h : f.InUse config) :
    f.config = config ∧ f.Ready := by
  induction h with
  | created h =>
      cases hcheck : config.check with
      | error e =>
          rw [create, hcheck] at h
          cases h
      | ok u =>
          rw [create, hcheck] at h
          cases h
          exact ⟨rfl, rfl, SearchConfig.capacity_of_check hcheck⟩
  | @searched f f' _ w mover start condition params report hfind ih =>
      obtain ⟨hconfig, hready⟩ := ih
      cases hstart : start.hasValidFloor with
      | false =>
          unfold find at hfind
          rw [hstart] at hfind
          cases hfind
          exact ⟨hconfig, hready.capacity, hready.room⟩
      | true =>
          obtain ⟨-, rfl, -⟩ := find_eq_some hstart hfind
          have haccounted := (hready.search
            (q := ⟨f.config, w, mover, start, condition, params⟩) rfl).2.1
          exact ⟨hconfig, haccounted.capacity, hready.room⟩

end Pathfinder

/-- The statistics of a search keep within the limits set for it. -/
structure SearchStats.Within (stats : SearchStats) (config : SearchConfig)
    (params : SearchParams) : Prop where
  closed_le : stats.closed ≤ stats.allocated
  allocated_le : stats.allocated ≤ config.nodeCapacity
  budget : params.maxSearch = 0 → stats.closed ≤ config.closedBudget
  examined_le : stats.examined ≤
    8 + (if params.allowDiagonal then 5 else 3) * (stats.allocated - 1)
  full : stats.exhausted = true → stats.allocated = config.nodeCapacity

namespace Pathfinder

/-- A search ends. Its turns select one node after another, none twice and
none cheaper than the one before, and open no closed node again. So there
is nothing left to select after as many turns as the pool may hold nodes,
whether or not there is a limit of distance. There is an answer unless the
search came upon an extra cost that is no word, and what it has spent keeps
within its limits. -/
theorem find_terminates {config : SearchConfig} {f : Pathfinder} (hf : f.InUse config)
    (w : World) (mover : Occupant) {start : Position} (hstart : start.hasValidFloor = true)
    (condition : PathCondition) (params : SearchParams) :
    let q : Quest := ⟨config, w, mover, start, condition, params⟩
    let after (turns : Nat) : Search :=
      Search.run q turns { pool := f.pool.restart start.x start.y }
    (∀ (earlier later : Nat) (i j : NodeIndex) (m n : Node), earlier < later →
      (after earlier).select? q = some i → (after earlier).pool.nodes[i]? = some m →
      (after later).select? q = some j → (after later).pool.nodes[j]? = some n →
      i ≠ j ∧ m.f ≤ n.f) ∧
    (∀ turns, (after turns).ReopensOpen q) ∧
    (after config.nodeCapacity).select? q = none ∧
    (after config.nodeCapacity).visits.length ≤ config.nodeCapacity ∧
    (f.find w mover start condition params = none ↔
      (after config.nodeCapacity).halt = some .overflow) ∧
    ∀ (f' : Pathfinder) (report : SearchReport),
      f.find w mover start condition params = some (f', report) →
      f'.lastSearch = (after config.nodeCapacity).stats ∧
      report.visits = (after config.nodeCapacity).visits.reverse ∧
      f'.lastSearch.Within config params := by
  intro q after
  obtain ⟨rfl, hready⟩ := hf.ready
  have hvalid : ∀ turns, (after turns).Valid q := (hready.valid_restart q).run
  obtain ⟨hend, haccounted, hover⟩ := hready.search (q := q) rfl
  have hg := hend.sound.grows
  have hcounts := hg.pool.counts
  have hlength := hg.length_le
  have hsize := haccounted.size_le hend
  refine ⟨?_, fun turns => (hvalid turns).reopensOpen, hover, ?_, find_eq_none_iff hstart, ?_⟩
  · intro earlier later i j m n hlt hi hm hj hn
    obtain ⟨turns, rfl⟩ := Nat.exists_eq_add_of_lt hlt
    have hlater : after (earlier + turns + 1) = Search.run q (turns + 1) (after earlier) := by
      rw [Nat.add_assoc]
      exact Search.run_add ..
    rw [hlater] at hj hn
    exact (hvalid earlier).selected_later hi hm hj hn
  · rw [List.length_map] at hlength
    exact Nat.le_trans hlength hsize
  · intro f' report hfind
    obtain ⟨-, rfl, rfl⟩ := find_eq_some hstart hfind
    refine ⟨rfl, rfl, ?_⟩
    exact {
      closed_le := by
        show (f.search q).pool.closed ≤ (f.search q).pool.nodes.size
        omega
      allocated_le := hsize
      budget := haccounted.budget
      examined_le := haccounted.examined_le hend
      full := fun hfull => haccounted.size_eq_of_full hend hready.room.2 (beq_iff_eq.mp hfull) }

/-- On an open field a search under a limit of distance takes all the nodes
there are, and stops. -/
theorem find_terminates_full_pool :
    let config : SearchConfig := { nodeCapacity := 3 }
    let floor : Cell := .onGround { kind := 100 }
    let w := ((World.empty {}).run
      [.setCell ⟨10, 10, 7⟩ floor .merge, .setCell ⟨11, 10, 7⟩ floor .merge,
        .setCell ⟨12, 10, 7⟩ floor .merge, .setCell ⟨10, 11, 7⟩ floor .merge,
        .setCell ⟨11, 11, 7⟩ floor .merge, .setCell ⟨12, 11, 7⟩ floor .merge]).1
    let c : TargetCondition := ⟨⟨13, 9, 7⟩⟩
    let params : SearchParams := { maxSearch := 5, minTarget := 1, maxTarget := 1 }
    (fresh config).InUse config ∧ Position.hasValidFloor ⟨10, 10, 7⟩ = true ∧
      ∃ f' report,
        (fresh config).find w .player ⟨10, 10, 7⟩ c.toPathCondition params = some (f', report) ∧
        f'.lastSearch.exhausted = true ∧ f'.lastSearch.allocated = 3 := by
  intro config floor w c params
  have hf : (fresh config).InUse config := .created rfl
  have hstart : Position.hasValidFloor ⟨10, 10, 7⟩ = true := by decide
  have hexhausted : ((fresh config).find w .player ⟨10, 10, 7⟩ c.toPathCondition params).map
      (·.1.lastSearch.exhausted) = some true := by decide +kernel
  obtain ⟨⟨f', report⟩, hfind, hexhausted⟩ := Option.map_eq_some_iff.mp hexhausted
  obtain ⟨-, -, -, -, -, hanswer⟩ := find_terminates hf w .player hstart c.toPathCondition params
  obtain ⟨-, -, hwithin⟩ := hanswer f' report hfind
  exact ⟨hf, hstart, f', report, hfind, hexhausted, hwithin.full hexhausted⟩

end Pathfinder

end TileWorld
