import TileWorld.Proofs.SearchInvariant

/-!
# The order of a search

Nodes are selected one after another, each at most once, and never at a
lower cost than the one before (`Valid.selected_later`). What was selected
stays as it is for the rest of the search (`Follows`): a cheaper way leads
to open nodes only, so that no closed node is ever opened again
(`Valid.reopensOpen`).
-/

namespace TileWorld.Search

variable {q : Quest} {s s' s'' : Search}

/-! ## Turns in sequence -/

theorem run_add (q : Quest) (s : Search) (turns more : Nat) :
    run q (turns + more) s = run q more (run q turns s) := by
  induction turns generalizing s with
  | zero => rw [Nat.zero_add, run]
  | succ turns ih =>
      rw [Nat.succ_add]
      cases hselect : s.select? q with
      | none => rw [run_of_over hselect, run_of_over hselect, run_of_over hselect]
      | some current => rw [run_succ hselect, run_succ hselect, ih]

/-- A later state of a search has the questions of an earlier one on
record, about the same nodes. -/
structure Follows (s s' : Search) : Prop where
  visits : s.visits <:+ s'.visits
  kept : ∀ v ∈ s.visits, s'.pool.nodes[v.node]? = s.pool.nodes[v.node]?

theorem Follows.refl (s : Search) : s.Follows s :=
  ⟨List.suffix_refl _, fun _ _ => rfl⟩

theorem Follows.trans (h : s.Follows s') (h' : s'.Follows s'') : s.Follows s'' :=
  ⟨h.visits.trans h'.visits,
    fun v hv => (h'.kept v (h.visits.subset hv)).trans (h.kept v hv)⟩

/-- What is left of the answer to a question once the node is expanded. -/
structure Keeps (s s' : Search) : Prop where
  best : s'.best = s.best
  found : s'.found = s.found
  finished : s'.finished = s.finished
  visits : s'.visits = s.visits
  kept : ∀ v ∈ s.visits, s'.pool.nodes[v.node]? = s.pool.nodes[v.node]?

theorem Keeps.follows (h : s.Keeps s') : s.Follows s' :=
  ⟨h.visits ▸ List.suffix_refl _, h.kept⟩

namespace Valid

/-- After a turn the question that it asked is answered and on record. -/
theorem turn_keeps (h : s.Valid q) {current : NodeIndex} (hselect : s.select? q = some current)
    {n : Node} (hn : s.pool.nodes[current]? = some n) :
    (s.ask q current n).Keeps (s.turn q current) := by
  obtain ⟨-, hprogress, -⟩ := h.expandAll hselect hn
  have hkept : ∀ v ∈ (s.ask q current n).visits,
      (s.expandAll q current n).pool.nodes[v.node]? = (s.ask q current n).pool.nodes[v.node]? :=
    fun v hv => hprogress.pool.kept v.node (List.mem_map_of_mem (f := (·.node)) hv)
  rcases turn_cases q hn with ⟨-, hturn⟩ | ⟨-, ⟨-, hturn⟩ | ⟨-, hturn⟩⟩ <;> rw [hturn]
  · exact ⟨rfl, rfl, rfl, rfl, fun _ _ => rfl⟩
  · exact ⟨hprogress.best, hprogress.found, hprogress.finished, hprogress.visits, hkept⟩
  · refine ⟨hprogress.best, hprogress.found, hprogress.finished, hprogress.visits, ?_⟩
    rw [Pool.nodes_close]
    exact hkept

theorem follows_run (h : s.Valid q) (turns : Nat) : s.Follows (Search.run q turns s) := by
  refine (run_induction (P := fun s' => s'.Valid q ∧ s.Follows s') ?_ ⟨h, .refl s⟩ turns).2
  rintro t current n ⟨hvalid, hfollows⟩ hselect hn
  have hasked : t.Follows (t.ask q current n) := ⟨List.suffix_cons _ _, fun _ _ => rfl⟩
  exact ⟨hvalid.turn hselect,
    hfollows.trans (hasked.trans (hvalid.turn_keeps hselect hn).follows)⟩

/-- The node selected now is not selected again, and what is selected
later costs no less. -/
theorem selected_later (h : s.Valid q) {i j : NodeIndex} {m n : Node}
    (hi : s.select? q = some i) (hm : s.pool.nodes[i]? = some m) {turns : Nat}
    (hj : (Search.run q (turns + 1) s).select? q = some j)
    (hn : (Search.run q (turns + 1) s).pool.nodes[j]? = some n) : i ≠ j ∧ m.f ≤ n.f := by
  have hfollows := (h.turn_keeps hi hm).follows.trans ((h.turn hi).follows_run turns)
  rw [run_succ hi] at hj hn
  have hvalid := (h.turn hi).run turns
  obtain ⟨hfinished, hgoing, -, hbest⟩ := select?_eq_some hj
  have hopen := (Pool.best?_eq_some hbest).1
  have hasked : (⟨i, m.position q.start.z, q.condition.judge q.world q.start
      (m.position q.start.z) q.params s.best⟩ : Visit) ∈ (s.ask q i m).visits :=
    List.mem_cons_self ..
  have hselected := List.mem_map_of_mem (f := (·.node)) (hfollows.visits.subset hasked)
  constructor
  · rintro rfl
    exact hvalid.closed hfinished hgoing i hselected hopen
  · exact hvalid.sound.grows.cheapest i j m n hselected ((hfollows.kept _ hasked).trans hm) hopen hn

end Valid

/-! ## Cheaper ways -/

/-- In the turn to come, whenever a known cell is reached at a lower cost
than before, its node is open. -/
def ReopensOpen (q : Quest) (s : Search) : Prop :=
  ∀ (current : NodeIndex) (n : Node), s.select? q = some current →
    s.pool.nodes[current]? = some n → ∀ (before after : List (Int × Int)) (offset : Int × Int),
    s.pool.neighbors n q.params.allowDiagonal = before ++ offset :: after →
    ∀ next, (n.position q.start.z).offset? offset.1 offset.2 = some next →
    let s' := (s.ask q current n).expand q current n before
    ∀ (k : NodeIndex) (m : Node) (f : UInt32), s'.pool.find? next.x next.y = some k →
      s'.pool.nodes[k]? = some m →
      q.arrivalCost? n (q.stepCost offset.1 offset.2) next (q.world.cell? next) = some f →
      f < m.f → s'.pool.isOpen k = true

/-- At any time of a turn, the node selected has looked at a first part of
its neighbors. -/
theorem Valid.expand_part (h : s.Valid q) {current : NodeIndex}
    (hselect : s.select? q = some current) {n : Node} (hn : s.pool.nodes[current]? = some n)
    {part : List (Int × Int)} (hpart : part <+: s.pool.neighbors n q.params.allowDiagonal) :
    Progress q (current :: s.visits.map (·.node)) (s.ask q current n)
      ((s.ask q current n).expand q current n part) := by
  obtain ⟨hfinished, hgoing, -, hbest⟩ := select?_eq_some hselect
  have hask := h.sound.ask (h.closed hfinished hgoing) hbest hn
  exact (expand_progress part hask.grows (List.mem_cons_self ..) (Pool.best?_eq_some hbest).1 hn
    fun o ho => neighbors_expandable hask.grows hn o (hpart.subset ho)).1

theorem Valid.reopensOpen (h : s.Valid q) : s.ReopensOpen q := by
  intro current n hselect hn before after offset hoffsets next hnext s' k m f hk hm hcost hless
  obtain ⟨hfinished, hgoing, -, hbest⟩ := select?_eq_some hselect
  have hask := h.sound.ask (h.closed hfinished hgoing) hbest hn
  have hprogress : Progress q (current :: s.visits.map (·.node)) (s.ask q current n) s' :=
    h.expand_part hselect hn ⟨offset :: after, hoffsets.symm⟩
  obtain ⟨d, rfl, -⟩ := neighbors_expandable hask.grows hn offset
    (hoffsets ▸ List.mem_append_right before (List.mem_cons_self ..))
  have hn' := (hprogress.pool.kept current (List.mem_cons_self ..)).trans hn
  have hopen' := hprogress.pool.opened current (Pool.best?_eq_some hbest).1
  obtain rfl := q.eq_arrivalCost hcost
  -- a closed node was selected, and no way to it is cheaper than it was then
  rw [Pool.isOpen, List.contains_iff_mem]
  by_contra hclosed
  exact hprogress.grows.not_mem_of_cheaper hopen' hn' hm hless
    (hprogress.grows.mem_of_not_open hm hclosed)

end TileWorld.Search
