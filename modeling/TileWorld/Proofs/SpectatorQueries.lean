import TileWorld.Proofs.LeafWalk
import TileWorld.Proofs.Reachability

/-!
# What a spectator query finds

A query filters the lists of the leaves that it visits by the positions in
the register. In a coherent world these lists name everybody in the block
of their leaf once, and the walk leaves out no leaf that matters, so the
query finds exactly those that a scan of the register would find
(`mem_collect_iff`), each once, and reports them leaf by leaf in reading
order (`collect_ids_eq`). `spectators_exact` puts this in terms of the
world.
-/

namespace TileWorld

/-! ## Gathering -/

namespace Gathering

theorem nodup_ids (s : Gathering) : s.ids.Nodup :=
  List.nodup_reverse.mpr s.nodup

theorem ids_add_of_not_mem (s : Gathering) {id : OccupantId} (h : id ∉ s.ids) :
    (s.add id).ids = s.ids ++ [id] := by
  have hknown : id ∉ s.known := fun hk => h (List.mem_reverse.mpr ((s.mem_known_iff id).mp hk))
  unfold add
  rw [dif_neg hknown]
  exact List.reverse_cons

/-- Newcomers that differ from each other and from all known ones are
gathered in order. -/
theorem ids_addAll (s : Gathering) {ids : List OccupantId} (h : (s.ids ++ ids).Nodup) :
    (s.addAll ids).ids = s.ids ++ ids := by
  induction ids generalizing s with
  | nil => exact (List.append_nil _).symm
  | cons id rest ih =>
      have hnew : id ∉ s.ids := fun hid =>
        (List.nodup_append.mp h).2.2 id hid id (List.mem_cons_self ..) rfl
      have hadd := s.ids_add_of_not_mem hnew
      rw [List.append_cons, ← hadd] at h
      show ((s.add id).addAll rest).ids = _
      rw [ih _ h, hadd, ← List.append_cons]

variable {i id : OccupantId}

end Gathering

namespace SpectatorQuery

/-- Those of a leaf that the query finds, in the order of the list scanned. -/
def seen (q : SpectatorQuery) (position? : OccupantId → Option Position) (l : Leaf) :
    List OccupantId :=
  (q.candidates l).filter fun id => (position? id).any q.covers

theorem collect_eq_addAll (q : SpectatorQuery) (g : Grid)
    (position? : OccupantId → Option Position) :
    q.collect g position? = Gathering.empty.addAll ((q.leaves g).flatMap (q.seen position?)) := by
  unfold collect Gathering.addAll
  rw [List.foldl_flatMap]
  rfl

/-! ## Queries in a coherent world -/

variable {w : World} {q : SpectatorQuery} {i : LeafId} {l : Leaf} {id : OccupantId}

/-- A leaf is asked for everybody in its block, or for the players there. -/
theorem names_candidates (hw : w.Coherent) (hl : w.grid.leaves[i]? = some l) :
    Names (q.candidates l) (Register.Has w.resident? fun r =>
      w.grid.Houses i r ∧ (q.playersOnly = true → r.occupant.isPlayer = true)) := by
  unfold candidates
  cases q.playersOnly with
  | true => exact (hw.leaves.players i l hl).congr fun _ => by simp
  | false => exact (hw.leaves.occupants i l hl).congr fun _ => by simp

theorem names_seen (hw : w.Coherent) (hl : w.grid.leaves[i]? = some l) :
    Names (q.seen w.position? l) (Register.Has w.resident? fun r =>
      w.grid.Houses i r ∧ (q.playersOnly = true → r.occupant.isPlayer = true) ∧
        q.covers r.position = true) := by
  have hc := names_candidates (q := q) hw hl
  refine ⟨hc.nodup.filter _, fun id => ?_⟩
  rw [seen, List.mem_filter, hc.mem_iff, Option.any_eq_true]
  constructor
  · rintro ⟨⟨r, hr, hi, hplayer⟩, p, hp, hcover⟩
    obtain ⟨r', hr', rfl⟩ := Option.map_eq_some_iff.mp hp
    obtain rfl := Option.some.inj (hr.symm.trans hr')
    exact ⟨r, hr, hi, hplayer, hcover⟩
  · rintro ⟨r, hr, hi, hplayer, hcover⟩
    exact ⟨⟨r, hr, hi, hplayer⟩, r.position, Option.map_eq_some_iff.mpr ⟨r, hr, rfl⟩, hcover⟩

/-- Nobody is seen in two leaves. -/
theorem nodup_flatMap_seen (hw : w.Coherent) {order : List Leaf}
    (hleaves : ∀ l ∈ order, ∃ i : LeafId, w.grid.leaves[i]? = some l)
    (hsorted : order.Pairwise Leaf.ReadsBefore) :
    (order.flatMap (q.seen w.position?)).Nodup := by
  rw [List.nodup_flatMap]
  constructor
  · intro l hl
    obtain ⟨i, hi⟩ := hleaves l hl
    exact (names_seen hw hi).nodup
  · refine List.Pairwise.imp_of_mem ?_ hsorted
    intro l l' hl hl' hbefore id hid hid'
    obtain ⟨i, hi⟩ := hleaves l hl
    obtain ⟨i', hi'⟩ := hleaves l' hl'
    obtain ⟨r, hr, hhouse, -⟩ := ((names_seen hw hi).mem_iff id).mp hid
    obtain ⟨r', hr', hhouse', -⟩ := ((names_seen hw hi').mem_iff id).mp hid'
    obtain rfl := Option.some.inj (hr.symm.trans hr')
    obtain rfl := Option.some.inj (hhouse.symm.trans hhouse')
    obtain rfl := Option.some.inj (hi.symm.trans hi')
    exact Std.Irrefl.irrefl l hbefore

/-- Leaves that the walk leaves out hold nobody that the query covers. -/
theorem seen_eq_nil (hw : w.Coherent) (hl : w.grid.leaves[i]? = some l)
    (hout : l ∉ q.leaves w.grid) : q.seen w.position? l = [] := by
  rw [List.eq_nil_iff_forall_not_mem]
  intro id hid
  obtain ⟨r, -, hhouse, -, hcover⟩ := ((names_seen hw hl).mem_iff id).mp hid
  exact hout (mem_leaves_of_covers hw.grid hcover hhouse hl)

theorem flatMap_filter_of_nil {α β : Type} {f : α → List β} {P : α → Bool} {ls : List α}
    (h : ∀ a ∈ ls, P a = false → f a = []) : (ls.filter P).flatMap f = ls.flatMap f := by
  induction ls with
  | nil => rfl
  | cons a ls ih =>
      have hrest := ih fun b hb => h b (List.mem_cons_of_mem a hb)
      cases ha : P a with
      | true => rw [List.filter_cons_of_pos ha, List.flatMap_cons, List.flatMap_cons, hrest]
      | false =>
          rw [List.filter_cons_of_neg (by simp [ha]), List.flatMap_cons, hrest,
            h a (List.mem_cons_self ..) ha, List.nil_append]

/-- The walk picks its leaves out of the grid's without changing their order. -/
theorem leaves_eq_filter (hg : w.grid.WellFormed) :
    q.leaves w.grid = w.grid.inReadingOrder.filter (· ∈ q.leaves w.grid) := by
  refine (pairwise_leaves hg).eq_of_mem_iff (hg.pairwise_inReadingOrder.filter _) fun l => ?_
  rw [List.mem_filter, Grid.mem_inReadingOrder, decide_eq_true_eq]
  exact ⟨fun hl => ⟨exists_of_mem_leaves hg hl, hl⟩, And.right⟩

/-- The query lists all whom it finds leaf by leaf, the leaves of the whole
grid taken in reading order. -/
theorem collect_ids_eq (hw : w.Coherent) :
    (q.collect w.grid w.position?).ids =
      w.grid.inReadingOrder.flatMap (q.seen w.position?) := by
  have hnodup : ((q.leaves w.grid).flatMap (q.seen w.position?)).Nodup :=
    nodup_flatMap_seen hw (fun l hl => exists_of_mem_leaves hw.grid hl) (pairwise_leaves hw.grid)
  rw [collect_eq_addAll, Gathering.ids_addAll _ (by exact hnodup)]
  show (q.leaves w.grid).flatMap (q.seen w.position?) = _
  rw [leaves_eq_filter hw.grid]
  refine flatMap_filter_of_nil fun l hl hout => ?_
  obtain ⟨i, hi⟩ := Grid.mem_inReadingOrder.mp hl
  exact seen_eq_nil hw hi (of_decide_eq_false hout)

/-- The query finds whom a scan of the register finds. -/
theorem mem_collect_iff (hw : w.Coherent) :
    id ∈ (q.collect w.grid w.position?).ids ↔ ∃ r, w.resident? id = some r ∧
      (q.playersOnly = true → r.occupant.isPlayer = true) ∧ q.covers r.position = true := by
  rw [collect_ids_eq hw, List.mem_flatMap]
  constructor
  · rintro ⟨l, hl, hid⟩
    obtain ⟨i, hi⟩ := Grid.mem_inReadingOrder.mp hl
    obtain ⟨r, hr, -, hplayer, hcover⟩ := ((names_seen hw hi).mem_iff id).mp hid
    exact ⟨r, hr, hplayer, hcover⟩
  · rintro ⟨r, hr, hplayer, hcover⟩
    obtain ⟨i, l, hhouse, hl, -⟩ := hw.leaf_of_resident? hr
    exact ⟨l, Grid.mem_inReadingOrder.mpr ⟨i, hl⟩,
      ((names_seen hw hl).mem_iff id).mpr ⟨r, hr, hhouse, hplayer, hcover⟩⟩

end SpectatorQuery

/-! ## Queries in a reachable world -/

/-- The position is watched from a center: its floor belongs to the band,
and its column and row lie in the range, shifted by as many cells as the
position is floors above the center. -/
structure Position.WatchedFrom (p center : Position) (multiFloor : Bool) (range : SpectatorRange) :
    Prop where
  floor : (floorBand center multiFloor).1 ≤ p.z ∧ p.z ≤ (floorBand center multiFloor).2
  column : (center.x.toNat : Int) - range.west.toNat + (center.z.toNat - p.z.toNat) ≤ p.x.toNat ∧
    (p.x.toNat : Int) ≤ center.x.toNat + range.east.toNat + (center.z.toNat - p.z.toNat)
  row : (center.y.toNat : Int) - range.north.toNat + (center.z.toNat - p.z.toNat) ≤ p.y.toNat ∧
    (p.y.toNat : Int) ≤ center.y.toNat + range.south.toNat + (center.z.toNat - p.z.toNat)

theorem SpectatorQuery.covers_iff_watchedFrom {q : SpectatorQuery} {p : Position} :
    q.covers p = true ↔ p.WatchedFrom q.center q.multiFloor q.range := by
  rw [SpectatorQuery.covers_iff]
  exact ⟨fun ⟨hz, hx, hy⟩ => ⟨hz, hx, hy⟩, fun h => ⟨h.floor, h.column, h.row⟩⟩

/-- The ends of the band over all floors, as numbers. -/
theorem toNat_floorBand {center : Position} (hz : center.hasValidFloor = true) :
    ((floorBand center true).1.toNat = if 7 < center.z.toNat then center.z.toNat - 2 else 0) ∧
      (floorBand center true).2.toNat =
        if 7 < center.z.toNat then min (center.z.toNat + 2) 15
        else if 5 < center.z.toNat then center.z.toNat + 2 else 7 := by
  have hfloors : ∀ n < 16, let band := floorBand ⟨0, 0, UInt8.ofNat n⟩ true
      (band.1.toNat = if 7 < n then n - 2 else 0) ∧
        band.2.toNat = if 7 < n then min (n + 2) 15 else if 5 < n then n + 2 else 7 := by decide
  have hband := hfloors center.z.toNat (Position.hasValidFloor_iff.mp hz)
  rwa [UInt8.ofNat_toNat] at hband

/-- Whoever stands at the center of a query over all floors is watched. -/
theorem Position.watchedFrom_self {p : Position} (hz : p.hasValidFloor = true)
    (range : SpectatorRange) : p.WatchedFrom p true range := by
  obtain ⟨htop, hbottom⟩ := toNat_floorBand hz
  rw [hasValidFloor_iff] at hz
  refine ⟨⟨?_, ?_⟩, by omega, by omega⟩
  · rw [UInt8.le_iff_toNat_le, htop]
    split <;> omega
  · rw [UInt8.le_iff_toNat_le, hbottom]
    split
    · omega
    · split <;> omega

namespace World

theorem mem_spectators_iff {w : World} (hw : w.Coherent) {center : Position}
    (hz : center.hasValidFloor = true) {multiFloor playersOnly : Bool} {range : SpectatorRange}
    {id : OccupantId} :
    id ∈ (w.spectators center multiFloor playersOnly range).ids ↔ ∃ r, w.resident? id = some r ∧
      (playersOnly = true → r.occupant.isPlayer = true) ∧
        r.position.WatchedFrom center multiFloor range := by
  rw [spectators, if_pos hz, SpectatorQuery.mem_collect_iff hw]
  simp only [SpectatorQuery.covers_iff_watchedFrom]

/-- From a center on the map, a query finds each registered occupant, or
each player if only players are asked for, at a watched position, and
nobody else. It reports nobody twice, leaf by leaf in reading order, and
within a leaf in the order of its list. -/
theorem spectators_exact {w : World} (hw : w.Reachable) {center : Position}
    (hz : center.hasValidFloor = true) (multiFloor playersOnly : Bool) (range : SpectatorRange) :
    let found := (w.spectators center multiFloor playersOnly range).ids
    found.Nodup ∧
    (∀ id, id ∈ found ↔ ∃ r, w.resident? id = some r ∧
      (playersOnly = true → r.occupant.isPlayer = true) ∧
        r.position.WatchedFrom center multiFloor range) ∧
    ∃ order : List Leaf, (∀ l, l ∈ order ↔ ∃ i, w.leaf? i = some l) ∧
      order.Pairwise Leaf.ReadsBefore ∧
      found = order.flatMap fun l =>
        (if playersOnly then l.players else l.occupants).filter (· ∈ found) := by
  have hcoherent := hw.coherent
  have hfound : w.spectators center multiFloor playersOnly range =
      SpectatorQuery.collect ⟨center, multiFloor, playersOnly, range⟩ w.grid w.position? :=
    if_pos hz
  rw [hfound]
  refine ⟨Gathering.nodup_ids _, fun id => ?_, w.grid.inReadingOrder,
    fun l => Grid.mem_inReadingOrder, hcoherent.grid.pairwise_inReadingOrder, ?_⟩
  · rw [SpectatorQuery.mem_collect_iff hcoherent]
    simp only [SpectatorQuery.covers_iff_watchedFrom]
  · refine (SpectatorQuery.collect_ids_eq hcoherent).trans ?_
    rw [List.flatMap_def, List.flatMap_def]
    refine congrArg List.flatten (List.map_congr_left fun l hl => ?_)
    refine List.filter_congr fun id hid => ?_
    obtain ⟨i, hi⟩ := Grid.mem_inReadingOrder.mp hl
    obtain ⟨r, hr, -, hplayer⟩ := ((SpectatorQuery.names_candidates hcoherent hi).mem_iff id).mp hid
    rw [Bool.eq_iff_iff, decide_eq_true_eq, SpectatorQuery.mem_collect_iff hcoherent,
      Option.any_eq_true]
    constructor
    · rintro ⟨p, hp, hcover⟩
      obtain ⟨r', hr', rfl⟩ := Option.map_eq_some_iff.mp hp
      obtain rfl := Option.some.inj (hr.symm.trans hr')
      exact ⟨r, hr, hplayer, hcover⟩
    · rintro ⟨r', hr', -, hcover⟩
      exact ⟨r'.position, Option.map_eq_some_iff.mpr ⟨r', hr', rfl⟩, hcover⟩

/-- Two players, one of them a floor up and a cell further south-east in a
leaf of its own, are seen by a query that covers the center's column and
row only. -/
theorem spectators_exact_one_floor_up :
    let w := ((empty {}).run
      [.ensureLeaf 200 8, .setCell ⟨16, 16, 6⟩ .empty .merge, .setCell ⟨15, 15, 7⟩ .empty .merge,
        .place .player ⟨16, 16, 6⟩, .place .player ⟨15, 15, 7⟩, .place .creature ⟨16, 16, 6⟩]).1
    let found := (w.spectators ⟨15, 15, 7⟩ true true .point).ids
    w.Reachable ∧ Position.hasValidFloor ⟨15, 15, 7⟩ = true ∧ found.Nodup ∧ found = [⟨2⟩, ⟨1⟩] := by
  intro w found
  have hw : w.Reachable := ⟨_, _, (length_placements_le _ _).trans (by decide), rfl⟩
  have hz : Position.hasValidFloor ⟨15, 15, 7⟩ = true := by decide
  exact ⟨hw, hz, (spectators_exact hw hz true true .point).1, by decide +kernel⟩

end World

end TileWorld
