import Mathlib.Data.List.Perm.Subperm
import TileWorld.Route.Pool

/-!
# Laws of the node pool

`Pool.WellFormed` is the state of a pool between any two of its
operations: places resolve to nodes and nodes to places, the frontier
lists some of the nodes without repetition, and the closed ones are those
left. Every operation keeps it (`WellFormed.add`, `reopen`, `close`,
`restart`), and `best?_eq_some` says which node is selected.
-/

namespace TileWorld.Pool

/-! ## Places -/

theorem toNat_key (x y : UInt16) : (key x y).toNat = x.toNat * 65536 + y.toNat := by
  have hx := x.toNat_lt
  have hy := y.toNat_lt
  show ((x.toUInt32 <<< 16) ||| y.toUInt32).toNat = _
  rw [UInt32.toNat_or, UInt32.toNat_shiftLeft, UInt16.toNat_toUInt32, UInt16.toNat_toUInt32,
    show (16 : UInt32).toNat % 32 = 16 from rfl, Nat.mod_eq_of_lt (by rw [Nat.shiftLeft_eq]; omega),
    ← Nat.shiftLeft_add_eq_or_of_lt (by omega), Nat.shiftLeft_eq]

theorem key_inj {x y x' y' : UInt16} : key x y = key x' y' ↔ x = x' ∧ y = y' := by
  have hy := y.toNat_lt
  have hy' := y'.toNat_lt
  rw [← UInt32.toNat_inj, toNat_key, toNat_key, ← UInt16.toNat_inj, ← UInt16.toNat_inj]
  omega

/-! ## The invariant -/

/-- Nodes, places and the frontier of a pool belong together. -/
structure WellFormed (p : Pool) : Prop where
  /-- Places resolve to the nodes there, and to no others. -/
  places : ∀ k i, p.byPlace[k]? = some i ↔ ∃ n : Node, p.nodes[i]? = some n ∧ key n.x n.y = k
  frontier_lt : ∀ i : Nat, i ∈ p.frontier → i < p.nodes.size
  frontier_nodup : p.frontier.Nodup
  /-- A node is open or closed. -/
  counts : p.closed + p.frontier.length = p.nodes.size
  room : p.nodes.size ≤ p.capacity ∧ p.nodes.size ≤ maxNodeCapacity

theorem wellFormed_empty (capacity : Nat) : (empty capacity).WellFormed := by
  refine ⟨?_, ?_, List.nodup_nil, rfl, Nat.zero_le _, Nat.zero_le _⟩
  · simp [empty]
  · simp [empty]

theorem isFull_eq_false {p : Pool} (h : p.isFull = false) :
    p.nodes.size < p.capacity ∧ p.nodes.size < maxNodeCapacity := by
  simp only [isFull, Bool.or_eq_false_iff, decide_eq_false_iff_not] at h
  omega

theorem getElem?_add (p : Pool) (n : Node) (i : NodeIndex) :
    (p.add n).nodes[i]? = if i = p.nodes.size then some n else p.nodes[i]? :=
  Array.getElem?_push ..

theorem getElem?_reopen (p : Pool) (j parent : NodeIndex) (f : UInt32) (i : NodeIndex) :
    (p.reopen j parent f).nodes[i]? =
      if j = i then (p.nodes[i]?).map ({ · with f, parent := some parent }) else p.nodes[i]? := by
  have hnodes : (p.reopen j parent f).nodes =
      p.nodes.modify j fun n => { n with f, parent := some parent } := by
    unfold reopen
    dsimp only
    split <;> rfl
  rw [hnodes, Array.getElem?_modify]

theorem size_add (p : Pool) (n : Node) : (p.add n).nodes.size = p.nodes.size + 1 :=
  Array.size_push ..

theorem size_reopen (p : Pool) (j parent : NodeIndex) (f : UInt32) :
    (p.reopen j parent f).nodes.size = p.nodes.size := by
  unfold reopen
  dsimp only
  split <;> exact Array.size_modify ..

theorem capacity_reopen (p : Pool) (j parent : NodeIndex) (f : UInt32) :
    (p.reopen j parent f).capacity = p.capacity := by
  unfold reopen
  dsimp only
  split <;> rfl

theorem closed_reopen_le (p : Pool) (j parent : NodeIndex) (f : UInt32) :
    (p.reopen j parent f).closed ≤ p.closed := by
  unfold reopen
  dsimp only
  split
  · exact Nat.le_refl _
  · exact Nat.sub_le ..

theorem close_of_mem {p : Pool} {i : NodeIndex} (h : i ∈ p.frontier) :
    p.close i = { p with frontier := p.frontier.erase i, closed := p.closed + 1 } :=
  if_pos (List.contains_iff_mem.mpr h)

theorem close_of_not_mem {p : Pool} {i : NodeIndex} (h : i ∉ p.frontier) : p.close i = p :=
  if_neg fun hopen => h (List.contains_iff_mem.mp hopen)

@[simp] theorem nodes_close (p : Pool) (i : NodeIndex) : (p.close i).nodes = p.nodes := by
  unfold close
  split <;> rfl

@[simp] theorem frontier_close (p : Pool) (i : NodeIndex) :
    (p.close i).frontier = p.frontier.erase i := by
  by_cases h : i ∈ p.frontier
  · rw [close_of_mem h]
  · rw [close_of_not_mem h, List.erase_of_not_mem h]

@[simp] theorem frontier_add (p : Pool) (n : Node) :
    (p.add n).frontier = p.nodes.size :: p.frontier := rfl

theorem frontier_reopen_of_mem (p : Pool) {j : NodeIndex} (hj : j ∈ p.frontier)
    (parent : NodeIndex) (f : UInt32) : (p.reopen j parent f).frontier = p.frontier := by
  unfold reopen
  rw [show p.isOpen j = true from List.contains_iff_mem.mpr hj]
  rfl

namespace WellFormed

variable {p : Pool}

theorem find?_eq_some_iff (hp : p.WellFormed) {x y : UInt16} {i : NodeIndex} :
    p.find? x y = some i ↔ ∃ n : Node, p.nodes[i]? = some n ∧ n.x = x ∧ n.y = y := by
  unfold find?
  rw [hp.places]
  simp only [key_inj]

theorem find?_eq_none (hp : p.WellFormed) {x y : UInt16} (h : p.find? x y = none)
    {i : NodeIndex} {n : Node} (hi : p.nodes[i]? = some n) : ¬ (n.x = x ∧ n.y = y) := by
  intro hxy
  rw [hp.find?_eq_some_iff.mpr ⟨n, hi, hxy⟩] at h
  cases h

theorem index_inj (hp : p.WellFormed) {i j : NodeIndex} {m n : Node} (hi : p.nodes[i]? = some m)
    (hj : p.nodes[j]? = some n) (hx : m.x = n.x) (hy : m.y = n.y) : i = j := by
  have hfi := hp.find?_eq_some_iff.mpr ⟨m, hi, hx, hy⟩
  have hfj := hp.find?_eq_some_iff.mpr ⟨n, hj, rfl, rfl⟩
  exact Option.some.inj (hfi.symm.trans hfj)

theorem add (hp : p.WellFormed) {n : Node} (hnew : p.find? n.x n.y = none)
    (hroom : p.isFull = false) : (p.add n).WellFormed := by
  obtain ⟨hcapacity, hmax⟩ := isFull_eq_false hroom
  have hsize := p.size_add n
  refine ⟨?_, ?_, ?_, ?_, ?_⟩
  · intro k i
    show (p.byPlace.insert (key n.x n.y) p.nodes.size)[k]? = some i ↔ _
    rw [Std.TreeMap.getElem?_insert]
    simp only [getElem?_add]
    by_cases hk : key n.x n.y = k
    · subst hk
      rw [if_pos (Std.ReflCmp.compare_self ..)]
      constructor
      · rintro ⟨⟩
        exact ⟨n, if_pos rfl, rfl⟩
      · rintro ⟨m, hm, hkey⟩
        split at hm
        · rename_i hi
          rw [hi]
        · exact absurd (key_inj.mp hkey) (hp.find?_eq_none hnew hm)
    · rw [if_neg (fun hc => hk (Std.LawfulEqCmp.eq_of_compare hc)), hp.places]
      refine exists_congr fun m => and_congr_left fun hkey => ?_
      split
      · rename_i hi
        subst hi
        rw [Array.getElem?_eq_none (Nat.le_refl _)]
        refine ⟨nofun, ?_⟩
        rintro ⟨⟩
        exact absurd hkey hk
      · rfl
  · intro i hi
    rw [frontier_add, List.mem_cons] at hi
    rcases hi with rfl | hi
    · omega
    · have := hp.frontier_lt i hi
      omega
  · rw [frontier_add, List.nodup_cons]
    exact ⟨fun hmem => Nat.lt_irrefl _ (hp.frontier_lt _ hmem), hp.frontier_nodup⟩
  · have := hp.counts
    show p.closed + (p.nodes.size :: p.frontier).length = _
    rw [hsize, List.length_cons]
    omega
  · rw [hsize]
    exact ⟨hcapacity, hmax⟩

theorem reopen (hp : p.WellFormed) {j : Nat} (hj : j < p.nodes.size) (parent : NodeIndex)
    (f : UInt32) : (p.reopen j parent f).WellFormed := by
  have hnode := p.getElem?_reopen j parent f
  have hplaces : ∀ k i, p.byPlace[k]? = some i ↔
      ∃ n : Node, (p.reopen j parent f).nodes[i]? = some n ∧ key n.x n.y = k := by
    intro k i
    rw [hp.places]
    simp only [hnode]
    split
    · cases p.nodes[i]? <;> simp
    · rfl
  have hsize := p.size_reopen j parent f
  have hcounts := hp.counts
  by_cases hopen : j ∈ p.frontier
  · have hstay : p.isOpen j = true := List.contains_iff_mem.mpr hopen
    unfold Pool.reopen at hplaces hsize ⊢
    rw [hstay] at hplaces hsize ⊢
    exact ⟨hplaces, fun i hi => hsize ▸ hp.frontier_lt i hi, hp.frontier_nodup,
      hsize ▸ hp.counts, hsize ▸ hp.room⟩
  · -- a closed node is one of those counted
    have hlength : p.frontier.length < p.nodes.size := by
      have hnodup : (j :: p.frontier).Nodup := List.nodup_cons.mpr ⟨hopen, hp.frontier_nodup⟩
      have hlt : ∀ i ∈ j :: p.frontier, i ∈ List.range p.nodes.size := by
        intro i hi
        rcases List.mem_cons.mp hi with rfl | hi
        · exact List.mem_range.mpr hj
        · exact List.mem_range.mpr (hp.frontier_lt i hi)
      have hle := (List.subperm_of_subset hnodup hlt).length_le
      rwa [List.length_range] at hle
    have hadd : p.isOpen j = false := by
      rw [← Bool.not_eq_true]
      exact fun h => hopen (List.contains_iff_mem.mp h)
    unfold Pool.reopen at hplaces hsize ⊢
    rw [hadd] at hplaces hsize ⊢
    refine ⟨hplaces, ?_, List.nodup_cons.mpr ⟨hopen, hp.frontier_nodup⟩, ?_, hsize ▸ hp.room⟩
    · intro i hi
      rcases List.mem_cons.mp hi with rfl | hi
      · exact hsize ▸ hj
      · exact hsize ▸ hp.frontier_lt i hi
    · show p.closed - 1 + (j :: p.frontier).length = _
      rw [List.length_cons]
      omega

theorem close (hp : p.WellFormed) {i : NodeIndex} (hi : i ∈ p.frontier) :
    (p.close i).WellFormed := by
  have hcounts := hp.counts
  have hpos := List.length_pos_of_mem hi
  rw [close_of_mem hi]
  refine ⟨hp.places, fun j hj => hp.frontier_lt j (List.mem_of_mem_erase hj),
    hp.frontier_nodup.erase i, ?_, hp.room⟩
  show p.closed + 1 + (p.frontier.erase i).length = _
  rw [List.length_erase_of_mem hi]
  show p.closed + 1 + (p.frontier.length - 1) = p.nodes.size
  omega

end WellFormed

theorem wellFormed_restart (p : Pool) (x y : UInt16) : (p.restart x y).WellFormed := by
  have hempty := wellFormed_empty p.capacity
  unfold restart
  dsimp only
  split
  · exact hempty
  · rename_i hroom
    exact hempty.add (by simp [find?, empty]) (Bool.eq_false_iff.mpr hroom)

/-! ## Selection -/

/-- The node is selected before another one, or is that one. -/
def NoLater (i : Nat) (m : Node) (j : Nat) (n : Node) : Prop :=
  m.f < n.f ∨ m.f = n.f ∧ i ≤ j

theorem NoLater.le {i j : Nat} {m n : Node} (h : NoLater i m j n) : m.f ≤ n.f := by
  rcases h with h | ⟨h, -⟩
  · exact UInt32.le_of_lt h
  · exact h ▸ UInt32.le_refl _

theorem NoLater.refl (i : Nat) (n : Node) : NoLater i n i n :=
  Or.inr ⟨rfl, Nat.le_refl _⟩

theorem NoLater.trans {i j k : Nat} {l m n : Node} (h : NoLater i l j m)
    (h' : NoLater j m k n) : NoLater i l k n := by
  rcases h with h | ⟨h, hij⟩ <;> rcases h' with h' | ⟨h', hjk⟩
  · exact Or.inl (UInt32.lt_trans h h')
  · exact Or.inl (h' ▸ h)
  · exact Or.inl (h ▸ h')
  · exact Or.inr ⟨h.trans h', Nat.le_trans hij hjk⟩

/-- The best of the nodes looked at so far, with its cost. -/
def BestOf (p : Pool) (seen : NodeIndex → Prop) (best : Option (UInt32 × NodeIndex)) : Prop :=
  match best with
  | none => ∀ i, seen i → p.nodes[i]? = none
  | some (f, i) => seen i ∧ ∃ m : Node, p.nodes[i]? = some m ∧ m.f = f ∧
      ∀ j n, seen j → p.nodes[j]? = some n → NoLater i m j n

/-- The best stays the best if the next node, should there be one, is
selected later. -/
theorem BestOf.keep {p : Pool} {seen : NodeIndex → Prop} {k : NodeIndex} {m : Node}
    (h : p.BestOf seen (some (m.f, k))) (hm : p.nodes[k]? = some m) {i : NodeIndex}
    (hlater : ∀ n : Node, p.nodes[i]? = some n → NoLater k m i n) :
    p.BestOf (fun j => seen j ∨ j = i) (some (m.f, k)) := by
  obtain ⟨hseen, m', hm', -, hmin⟩ := h
  obtain rfl := Option.some.inj (hm.symm.trans hm')
  refine ⟨Or.inl hseen, m, hm, rfl, ?_⟩
  rintro j n (hj | rfl) hn
  · exact hmin j n hj hn
  · exact hlater n hn

/-- The next node is the new best if it is selected before all others. -/
theorem BestOf.replace {p : Pool} {seen : NodeIndex → Prop} {i : NodeIndex} {n : Node}
    (hn : p.nodes[i]? = some n)
    (hfirst : ∀ j n', seen j → p.nodes[j]? = some n' → NoLater i n j n') :
    p.BestOf (fun j => seen j ∨ j = i) (some (n.f, i)) := by
  refine ⟨Or.inr rfl, n, hn, rfl, ?_⟩
  rintro j n' (hj | rfl) hn'
  · exact hfirst j n' hj hn'
  · obtain rfl := Option.some.inj (hn.symm.trans hn')
    exact .refl ..

theorem BestOf.better {p : Pool} {seen : NodeIndex → Prop} {best : Option (UInt32 × NodeIndex)}
    (h : p.BestOf seen best) (i : NodeIndex) :
    p.BestOf (fun j => seen j ∨ j = i) (p.better best i) := by
  unfold Pool.better
  cases hi : p.nodes[i]? with
  | none =>
      -- the node does not count
      cases best with
      | none =>
          rintro j (hj | rfl)
          · exact h j hj
          · exact hi
      | some b =>
          obtain ⟨f, k⟩ := b
          have hbest := h
          obtain ⟨-, m, hm, rfl, -⟩ := hbest
          exact h.keep hm (by simp [hi])
  | some n =>
      cases best with
      | none =>
          refine .replace hi fun j n' hj hn' => ?_
          rw [h j hj] at hn'
          cases hn'
      | some b =>
          obtain ⟨f, k⟩ := b
          have hbest := h
          obtain ⟨-, m, hm, rfl, hmin⟩ := hbest
          dsimp only
          split
          · rename_i hbetter
            have hni : NoLater i n k m := by
              simp only [Bool.or_eq_true, Bool.and_eq_true, decide_eq_true_eq, beq_iff_eq]
                at hbetter
              exact hbetter.imp_right fun ⟨heq, hlt⟩ => ⟨heq, Nat.le_of_lt hlt⟩
            exact .replace hi fun j n' hj hn' => hni.trans (hmin j n' hj hn')
          · rename_i hworse
            refine h.keep hm fun n' hn' => ?_
            obtain rfl := Option.some.inj (hi.symm.trans hn')
            simp only [Bool.or_eq_true, Bool.and_eq_true, decide_eq_true_eq, beq_iff_eq, not_or,
              not_and] at hworse
            rcases UInt32.lt_or_eq_of_le (UInt32.not_lt.mp hworse.1) with hlt | heq
            · exact Or.inl hlt
            · exact Or.inr ⟨heq, Nat.le_of_not_lt (hworse.2 heq.symm)⟩

theorem bestOf_foldl {p : Pool} {seen : NodeIndex → Prop} {best : Option (UInt32 × NodeIndex)}
    (h : p.BestOf seen best) (is : List NodeIndex) :
    p.BestOf (fun j => seen j ∨ j ∈ is) (is.foldl p.better best) := by
  induction is generalizing seen best with
  | nil => simpa using h
  | cons i is ih =>
      have hrest := ih (h.better i)
      rw [List.foldl_cons]
      simpa only [List.mem_cons, or_assoc] using hrest

theorem bestOf_frontier (p : Pool) :
    p.BestOf (· ∈ p.frontier) (p.frontier.foldl p.better none) := by
  have hnone : p.BestOf (fun _ => False) none := nofun
  simpa only [false_or] using bestOf_foldl hnone p.frontier

theorem best?_eq_some {p : Pool} {i : NodeIndex} (h : p.best? = some i) :
    i ∈ p.frontier ∧ ∃ m : Node, p.nodes[i]? = some m ∧
      ∀ j n, j ∈ p.frontier → p.nodes[j]? = some n → NoLater i m j n := by
  have hbest := p.bestOf_frontier
  obtain ⟨⟨f, j⟩, hb, rfl⟩ := Option.map_eq_some_iff.mp h
  rw [hb] at hbest
  obtain ⟨hmem, m, hm, -, hmin⟩ := hbest
  exact ⟨hmem, m, hm, hmin⟩

theorem best?_eq_none {p : Pool} (hp : p.WellFormed) (h : p.best? = none) : p.frontier = [] := by
  have hbest := p.bestOf_frontier
  rw [Option.map_eq_none_iff.mp h] at hbest
  rw [List.eq_nil_iff_forall_not_mem]
  intro i hi
  exact absurd (hp.frontier_lt i hi)
    (Nat.not_lt.mpr (Array.getElem?_eq_none_iff.mp (hbest i hi)))

end TileWorld.Pool
