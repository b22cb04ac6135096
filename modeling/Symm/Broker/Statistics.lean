import Symm.Broker.TierSpec
import Symm.Broker.Desk
import Mathlib.Data.List.Induction
import Mathlib.Data.List.Permutation

/-!
# The statistics of a tier and the lots behind them

`Recalculate` reads the closed cache, which is keyed by symbol: a lot that
settles on a symbol with an earlier closed lot takes its place. The arena keeps
every lot ever allocated, so it is the record of what has closed so far, and
`history` reads the returns from it. The closed cache `Covers` the arena when
every closed lot of the arena is in it; then the statistics computed at a
settlement are those of the whole history.

The statistics are numbers of 64 bits. The wins are counted exactly, since no
return that a lot is priced at is so small that its `Float64` is zero
(`Readable`). The mean is the one that adding up the returns gives in the order
of that settlement, which is some order of the history.

- `Keeping`: the condition on an event, in the state that it comes to;
- `covers_step`: keeping events keep the cover;
- `current_step`: one that settles a lot leaves both statistics those of the closed
  cache;
- `statistics_count_all`: over a run, from stored lots that `NewCache` restores without
  a loss, after each settlement, the statistics of the whole history.

The closed cache lists each lot once and covers what has closed, so its returns are
those of the arena in another order (`closedReturns_perm_history`). The share of wins
does not depend on the order. The mean does, in its last places, and is said to be that
of some order.
-/

namespace Symm.Broker

open Symm.System Symm.Lib

/-- The return of a lot that has closed. -/
def Position.closedReturn (p : Position) : Option ℚ :=
  if p.closedAt.isSome then p.pnlPct else none

namespace Tier

/-- The returns of all lots closed so far, where known. -/
def history (tier : Tier) : List ℚ := tier.lots.filterMap Position.closedReturn

/-- The return of the lot at an address, if it has closed. -/
def returnAt (tier : Tier) (id : LotId) : Option ℚ := (tier.lot id).bind Position.closedReturn

/-- Both statistics are those of the closed cache as it stands, its returns added
up in some order. -/
def Current (tier : Tier) : Prop :=
  ∃ returns : List ℚ, returns.Perm tier.closedReturns ∧
    tier.winRate = winRateOf returns ∧ tier.edge = edgeOf returns

/-- Every closed lot of the arena is in the closed cache. -/
def Covers (tier : Tier) : Prop :=
  ∀ id p, tier.lot id = some p → p.closedAt.isSome →
    ∃ symbol, tier.positions.closed.lookup symbol = some id

/-! ## The closed cache and the arena -/

/-- The returns that are read are those at the addresses of the closed cache. -/
theorem closedReturns_eq (tier : Tier) :
    tier.closedReturns = tier.positions.closedAll.filterMap tier.returnAt := by
  unfold closedReturns closedReturnsOf
  rw [List.filterMap_filterMap]
  rfl

theorem filterMap_getElem? {α β : Type*} (f : α → Option β) (l : List α) :
    l.filterMap f = (List.range l.length).filterMap fun i => l[i]?.bind f := by
  induction l using List.reverseRecOn with
  | nil => rfl
  | append_singleton xs x ih =>
    have hxs : ∀ i ∈ List.range xs.length, (xs ++ [x])[i]?.bind f = xs[i]?.bind f := by
      intro i hi
      rw [List.getElem?_append_left (List.mem_range.mp hi)]
    rw [List.filterMap_append, ih, List.length_append, List.length_singleton, List.range_succ,
      List.filterMap_append, List.filterMap_congr hxs]
    congr 1
    simp only [List.filterMap_cons, List.filterMap_nil, List.getElem?_concat_length,
      Option.bind_some]

theorem history_eq (tier : Tier) :
    tier.history = (List.range tier.lots.length).filterMap tier.returnAt :=
  filterMap_getElem? Position.closedReturn tier.lots

/-- Two duplicate-free lists with the same members where `f` is defined give
the same values in some order. -/
theorem filterMap_perm {α β : Type*} {f : α → Option β} {l l' : List α} (hl : l.Nodup)
    (hl' : l'.Nodup) (h : ∀ a, (f a).isSome → (a ∈ l ↔ a ∈ l')) :
    (l.filterMap f).Perm (l'.filterMap f) := by
  have hfilter : ∀ xs : List α, xs.filterMap f = (xs.filter fun a => (f a).isSome).filterMap f := by
    intro xs
    rw [List.filterMap_filter]
    refine List.filterMap_congr fun a _ => ?_
    cases f a <;> rfl
  rw [hfilter l, hfilter l']
  refine List.Perm.filterMap f ?_
  rw [List.perm_ext_iff_of_nodup (hl.filter _) (hl'.filter _)]
  intro a
  rw [List.mem_filter, List.mem_filter]
  exact and_congr_left fun ha => h a ha

/-- No lot is in the closed cache twice. -/
theorem WellFormed.closedAll_nodup {tier : Tier} (h : tier.WellFormed) :
    tier.positions.closedAll.Nodup := by
  have hentries : tier.positions.closed.entries.Nodup :=
    List.NodupKeys.nodup tier.positions.closed.nodupKeys
  refine List.Nodup.map_on ?_ hentries
  rintro ⟨s, id⟩ hs ⟨s', id'⟩ hs' heq
  dsimp only at heq
  subst heq
  have hsym := h.closed.inj h.closed (AList.mem_lookup_iff.mpr hs) (AList.mem_lookup_iff.mpr hs')
  subst hsym
  rfl

/-- If the closed cache covers the arena, its returns are the whole history. -/
theorem closedReturns_perm_history {tier : Tier} (hwf : tier.WellFormed) (hcov : tier.Covers) :
    tier.closedReturns.Perm tier.history := by
  rw [closedReturns_eq, history_eq]
  refine filterMap_perm hwf.closedAll_nodup List.nodup_range fun id hid => ?_
  obtain ⟨ret, hret⟩ := Option.isSome_iff_exists.mp hid
  obtain ⟨p, hp, hclosed⟩ := Option.bind_eq_some_iff.mp hret
  have hisSome : p.closedAt.isSome := by
    unfold Position.closedReturn at hclosed
    split at hclosed
    · assumption
    · cases hclosed
  exact ⟨fun _ => List.mem_range.mpr (lot_lt hp),
    fun _ => Cache.mem_closedAll.mpr (hcov id p hp hisSome)⟩

/-- The share of wins does not depend on the order: both counts are exact. -/
theorem winRateOf_perm {l l' : List ℚ} (h : l.Perm l') : winRateOf l = winRateOf l' := by
  have hnil : l = [] ↔ l' = [] := by
    rw [← List.length_eq_zero_iff, ← List.length_eq_zero_iff, h.length_eq]
  rw [winRateOf, winRateOf, h.countP_eq, h.length_eq]
  simp only [hnil]

/-- A settlement leaves the statistics current. -/
theorem current_touch {order : MapOrder} {call : LotId → Position → Position × Bool}
    {tier : Tier} {id : LotId} (h : tier.settlesAt call id = true) :
    (tier.touch order call id).Current := by
  obtain ⟨p, -, -, he⟩ := touch_of_settles h
  obtain ⟨unlocked, hs⟩ := settle_eq order (tier.setLot id (call id p).1) (call id p).1.symbol id
  rw [he, hs]
  exact ⟨_, ((order.perm _).filterMap _).filterMap _, rfl, rfl⟩

/-! ## Returns that a float64 can tell from zero -/

end Tier

/-- A positive return of the lot is not below every positive float64. -/
def Position.Readable (p : Position) : Prop :=
  ∀ pct, p.pnlPct = some pct → 0 < pct → 2 ^ (-1074 : ℤ) ≤ pct

/-- The return of a round trip has fourteen fraction digits. -/
theorem Price.le_roundTripPct {price : Price} {symbol : String}
    {quantity entry entryFee exitFee : Option Decimal} {pct : Decimal}
    (h : price.roundTripPct symbol quantity entry entryFee exitFee = some pct) (hpos : 0 < pct) :
    2 ^ (-1074 : ℤ) ≤ pct := by
  unfold Price.roundTripPct at h
  obtain ⟨⟨profit, cost⟩, -, h⟩ := Option.bind_eq_some_iff.mp h
  obtain ⟨-, -, h⟩ := Option.bind_eq_some_iff.mp h
  obtain rfl := Option.some.inj h
  have hquotient : 0 < Decimal.div profit cost := (mul_pos_iff_of_pos_right (by norm_num)).mp hpos
  calc (2 : ℚ) ^ (-1074 : ℤ) ≤ 2 ^ (-47 : ℤ) := two_zpow_le_iff.mpr (by decide)
    _ ≤ 1 / 10 ^ 16 * 100 := by norm_num
    _ ≤ Decimal.div profit cost * 100 :=
      mul_le_mul_of_nonneg_right (Decimal.le_div_of_pos hquotient) (by norm_num)

namespace Position

/-- A mark keeps the return of a lot or prices a round trip. -/
theorem readable_update {env : Env} {pace : ℚ} {mark : Option Decimal} {p : Position}
    (h : p.Readable) : (p.update env pace mark).1.Readable := by
  have hmarked : (p.marked env mark).Readable := by
    have hread : (((p.setMark mark).readExit env).readPnL env).Readable := by
      unfold readPnL
      dsimp only
      split
      · exact fun pct hpct => Price.le_roundTripPct hpct
      · exact h
    unfold marked
    split
    · unfold reprice arm
      split
      · split
        · exact hread
        · exact hread
      · exact hread
    · exact h
  rcases update_cases env pace mark p with ⟨-, heq⟩ | ⟨stop, pct, -, ⟨-, heq⟩ | ⟨-, heq⟩⟩
  · rw [heq]
    exact hmarked
  · rw [heq]
    exact hmarked
  · rw [heq]
    exact hmarked

/-- A report keeps a return readable. -/
theorem readable_apply {env : Env} {pace : ℚ} {execution : ExecutionData} {p : Position}
    (h : p.Readable) : (p.apply env pace execution).1.Readable := by
  unfold apply
  split
  · exact h
  · refine readable_update ?_
    unfold stampClose
    split
    · exact h
    · exact h

end Position

namespace Tier

/-- Every lot of the tier has a readable return, if any. -/
def Readable (tier : Tier) : Prop := ∀ id p, tier.lot id = some p → p.Readable

/-- Every event of a tier keeps the returns readable. -/
theorem readable_step {tier : Tier} (h : tier.Readable) (event : Event) :
    (tier.step event).Readable := by
  have hnew : ∀ p tierKey symbol path vol, Opened p tierKey symbol path vol → p.Readable := by
    intro p tierKey symbol path vol hp pct hpct
    rw [hp.pnlPct] at hpct
    cases hpct
  exact lots_step hnew (fun _ _ _ _ h => Position.readable_update h)
    (fun _ _ _ _ h => Position.readable_apply h) h event

/-- The wins that are counted are the positive returns. -/
theorem countP_wins {tier : Tier} (h : tier.Readable) :
    (tier.history.countP fun pnlPct => Floating.lt (.finite 0) (.double pnlPct)) =
      tier.history.countP (0 < ·) := by
  refine List.countP_congr fun pnlPct hmem => ?_
  obtain ⟨p, hp, hreturn⟩ := List.mem_filterMap.mp hmem
  obtain ⟨id, hid⟩ := List.mem_iff_getElem?.mp hp
  have hpct : p.pnlPct = some pnlPct := by
    unfold Position.closedReturn at hreturn
    split at hreturn
    · exact hreturn
    · cases hreturn
  rw [decide_eq_true_iff]
  exact ⟨Floating.pos_of_lt_double,
    fun hpos => Floating.lt_double_of_pos (h id p hid pnlPct hpct hpos)⟩

/-! ## Steps that keep the cover -/

/-- Something in the event settles a lot. -/
def Settles (tier : Tier) : Event → Prop
  | .update env symbol mark => ∃ id ∈ tier.positions.all symbol, tier.StopsOut env mark id
  | .apply env execution =>
    ∃ id ∈ tier.positions.openOf execution.symbol, tier.StopsOutOn env execution id
  | _ => False

/-- The event forgets no closed lot: it settles no lot over an earlier one of
its symbol, closes no lot that cannot call back (a restored one), drops no
closed lot after a failed write, and is no `Exit`, which moves a lot to the
closed cache without a close time. -/
def Keeping (tier : Tier) : Event → Prop
  | .enter env symbol _ _ =>
    (env.marshalOk = true ∧ env.writeOk = true) ∨ tier.positions.closed.lookup symbol = none
  | .update env symbol mark =>
    (Settles tier (.update env symbol mark) →
      tier.positions.opened.lookup symbol = none ∨ tier.positions.closed.lookup symbol = none) ∧
    ∀ id ∈ tier.positions.all symbol, ∀ p, tier.lot id = some p →
      p.fires env (env.pace id) mark = true → p.hasOnSettled = true
  | .apply env execution =>
    (Settles tier (.apply env execution) →
      tier.positions.closed.lookup execution.symbol = none) ∧
    ∀ id ∈ tier.positions.openOf execution.symbol, ∀ p, tier.lot id = some p →
      p.firesOn env (env.pace id) execution = true → p.hasOnSettled = true
  | .exit _ _ => False
  | .unlock _ => True
  | .clearPending _ => True

/-- After an event that settles a lot, the statistics are those of every lot
closed so far: the share of the positive returns, and the mean of all returns,
computed on float64s in some order. -/
def CountsAll (tier : Tier) (event : Event) : Prop :=
  Settles tier event →
    (tier.step event).winRate =
      Floating.div (.ofInt ((tier.step event).history.countP (0 < ·)))
        (.ofInt (tier.step event).history.length) ∧
    ∃ returns : List ℚ, returns.Perm (tier.step event).history ∧
      (tier.step event).edge = Floating.average (returns.map .double)

section

variable {tier : Tier} {symbol : String} {order : MapOrder}
  {call : LotId → Position → Position × Bool}

/-- A symbol without both an open and a closed lot lists at most one lot. -/
theorem all_eq_singleton {ids : List LotId} (hnd : ids.Nodup)
    (hall : ∀ id ∈ ids, id ∈ tier.positions.all symbol)
    (hfree : tier.positions.opened.lookup symbol = none ∨
      tier.positions.closed.lookup symbol = none) {id : LotId} (hid : id ∈ ids) : ids = [id] := by
  have hone : ∀ x ∈ ids, x = id := by
    intro x hx
    rcases hfree with h | h
    · have hx' := (Cache.mem_all.mp (hall x hx)).resolve_left
        (by rw [h]; exact Option.some_ne_none x |>.symm)
      have hid' := (Cache.mem_all.mp (hall id hid)).resolve_left
        (by rw [h]; exact Option.some_ne_none id |>.symm)
      exact Option.some.inj (hx'.symm.trans hid')
    · have hx' := (Cache.mem_all.mp (hall x hx)).resolve_right
        (by rw [h]; exact Option.some_ne_none x |>.symm)
      have hid' := (Cache.mem_all.mp (hall id hid)).resolve_right
        (by rw [h]; exact Option.some_ne_none id |>.symm)
      exact Option.some.inj (hx'.symm.trans hid')
  cases ids with
  | nil => cases hid
  | cons x xs =>
    rw [hone x List.mem_cons_self]
    cases xs with
    | nil => rfl
    | cons y ys =>
      have hxy : x = y := by
        rw [hone x List.mem_cons_self, hone y (List.mem_cons_of_mem x List.mem_cons_self)]
      exact absurd (hxy ▸ List.mem_cons_self) (List.nodup_cons.mp hnd).1

/-- A fold of calls on lots of one symbol keeps the cover, if what it closes
calls back and nothing is settled over an earlier closed lot. -/
theorem covers_foldl_touch (hcall : ∀ id, Position.LotCall (call id)) (hwf : tier.WellFormed)
    (hcov : tier.Covers) {ids : List LotId} (hnd : ids.Nodup)
    (hall : ∀ id ∈ ids, id ∈ tier.positions.all symbol)
    (hback : ∀ id ∈ ids, ∀ p, tier.lot id = some p → p.closedAt = none →
      (call id p).1.closedAt.isSome → (call id p).2 = true)
    (hfree : (∃ id ∈ ids, tier.settlesAt call id = true) →
      tier.positions.opened.lookup symbol = none ∨ tier.positions.closed.lookup symbol = none) :
    (ids.foldl (touch order call) tier).Covers := by
  have hsym : ∀ id ∈ ids, ∀ p, tier.lot id = some p → (call id p).1.symbol = symbol := by
    intro id hid p hp
    rw [((hcall id).same p).symbol]
    exact hwf.symbol_of_all (hall id hid) hp
  have hpos : (ids.foldl (touch order call) tier).positions = _ :=
    foldl_touch_positions hnd hsym
  -- what was in the closed cache still is
  have hkeep : ∀ s x, tier.positions.closed.lookup s = some x →
      (ids.foldl (touch order call) tier).positions.closed.lookup s = some x := by
    intro s x hs
    rw [hpos]
    split
    · rename_i hany
      rw [Cache.lookup_remove_closed]
      split
      · rename_i heq
        subst heq
        rcases hfree (List.any_eq_true.mp hany) with h | h
        · rw [h, Option.none_or, hs]
        · rw [h] at hs
          cases hs
      · exact hs
    · exact hs
  intro id q hq hclosed
  rw [lot_foldl_touch hnd] at hq
  split at hq
  · rename_i hid
    obtain ⟨p, hp, rfl⟩ := Option.map_eq_some_iff.mp hq
    cases hc : p.closedAt with
    | some t =>
      obtain ⟨s, hs⟩ := hcov id p hp (by rw [hc, Option.isSome_some])
      exact ⟨s, hkeep s id hs⟩
    | none =>
      have hsettles : tier.settlesAt call id = true := by
        rw [settlesAt_of_some hp]
        exact hback id hid p hp hc hclosed
      rcases Cache.mem_all.mp (hall id hid) with ho | hcl
      · refine ⟨symbol, ?_⟩
        rw [hpos, if_pos (List.any_eq_true.mpr ⟨id, hid, hsettles⟩), Cache.lookup_remove_closed,
          if_pos rfl, ho, Option.some_or]
      · exact ⟨symbol, hkeep symbol id hcl⟩
  · obtain ⟨s, hs⟩ := hcov id q hq hclosed
    exact ⟨s, hkeep s id hs⟩

/-- A lot that settles is part of the history. -/
theorem history_foldl_touch_ne_nil (hcall : ∀ id, Position.LotCall (call id)) {ids : List LotId}
    (hnd : ids.Nodup) (hsettles : ∃ id ∈ ids, tier.settlesAt call id = true) :
    (ids.foldl (touch order call) tier).history ≠ [] := by
  obtain ⟨id, hid, hs⟩ := hsettles
  obtain ⟨p, hp, hcalled⟩ := settlesAt_iff.mp hs
  obtain ⟨-, hclosed, hpct⟩ := (hcall id).settled p hcalled
  obtain ⟨pct, hpct⟩ := Option.isSome_iff_exists.mp hpct
  have hlot : (ids.foldl (touch order call) tier).lot id = some (call id p).1 := by
    rw [lot_foldl_touch hnd, if_pos hid, hp, Option.map_some]
  have hmem : pct ∈ (ids.foldl (touch order call) tier).history := by
    refine List.mem_filterMap.mpr ⟨_, List.mem_of_getElem? hlot, ?_⟩
    rw [Position.closedReturn, if_pos hclosed, hpct]
  exact List.ne_nil_of_mem hmem

/-- If it settles a lot, the statistics are then current. -/
theorem current_foldl_touch {ids : List LotId} (hnd : ids.Nodup)
    (hall : ∀ id ∈ ids, id ∈ tier.positions.all symbol)
    (hsettles : ∃ id ∈ ids, tier.settlesAt call id = true)
    (hfree : tier.positions.opened.lookup symbol = none ∨
      tier.positions.closed.lookup symbol = none) : (ids.foldl (touch order call) tier).Current := by
  obtain ⟨id, hid, hs⟩ := hsettles
  rw [all_eq_singleton hnd hall hfree hid]
  exact current_touch hs

end

/-- Restored, refused and appended lots leave the cover in place. -/
theorem covers_enter {tier : Tier} {env : Env} {symbol path : String} {pathFound : Bool}
    (hcov : tier.Covers) (h : Keeping tier (.enter env symbol path pathFound)) :
    (tier.enter env symbol path pathFound).1.Covers := by
  rcases enter_cases env symbol path pathFound tier with ⟨-, he, -⟩ | ⟨p, vol, -, -, hp, he⟩
  · rw [he]
    exact hcov
  -- the new lot is open, so it needs no entry among the closed
  · have hadd : (tier.addLot symbol p).Covers := by
      intro id q hq hclosed
      rcases lot_of_addLot hq with hold | ⟨-, rfl⟩
      · obtain ⟨s, hs⟩ := hcov id q hold hclosed
        exact ⟨s, by rwa [addLot, Cache.add_closed]⟩
      · rw [hp.closedAt] at hclosed
        cases hclosed
    rw [he]
    rcases send_cases env p .enter (tier.addLot symbol p) with ⟨-, hs⟩ | ⟨hfail, hs⟩ | ⟨_, -, hs⟩
    · rw [hs]
      exact hadd
    · rw [hs]
      intro id q hq hclosed
      obtain ⟨s, hs'⟩ := hadd id q hq hclosed
      refine ⟨s, ?_⟩
      -- the rollback drops by symbol, which takes a closed lot of the symbol along
      have hne : s ≠ p.symbol := by
        intro heq
        rcases h with ⟨hm, hw⟩ | hnone
        · simp [hm, hw] at hfail
        · rw [heq, hp.symbol, addLot, Cache.add_closed, hnone] at hs'
          cases hs'
      rw [Cache.drop, AList.lookup_erase_ne hne]
      exact hs'
    · rw [hs]
      exact hadd

/-- What a mark closes calls back, if every firing stop does. -/
theorem update_back {env : Env} {mark : Option Decimal} {id : LotId} {p : Position}
    (hback : p.fires env (env.pace id) mark = true → p.hasOnSettled = true)
    (hopen : p.closedAt = none) (hclosed : (updateCall env mark id p).1.closedAt.isSome) :
    (updateCall env mark id p).2 = true := by
  have hf := fires_of_closes hopen hclosed
  rw [updateCall, Position.update_settles, hf, hback hf, Bool.true_and]

/-- What a report closes calls back, if every firing stop does. -/
theorem apply_back {env : Env} {execution : ExecutionData} {id : LotId} {p : Position}
    (hback : p.firesOn env (env.pace id) execution = true → p.hasOnSettled = true)
    (hopen : p.closedAt = none) (hclosed : (applyCall env execution id p).1.closedAt.isSome) :
    (applyCall env execution id p).2 = true := by
  have hf := firesOn_of_closes hopen hclosed
  rw [applyCall, Position.apply_settles, hf, hback hf, Bool.true_and]

/-- The invariant of a run that forgets no closed lot. -/
theorem covers_step {tier : Tier} {event : Event} (hwf : tier.WellFormed) (hcov : tier.Covers)
    (h : Keeping tier event) : (tier.step event).Covers := by
  cases event with
  | enter env symbol path pathFound => exact covers_enter hcov h
  | update env symbol mark =>
    refine covers_foldl_touch (lotCall_updateCall env mark) hwf hcov (hwf.all_nodup symbol)
      (fun id hid => hid) (fun id hid p hp => update_back (h.2 id hid p hp)) fun hs => ?_
    simp only [settlesAt_updateCall] at hs
    exact h.1 hs
  | apply env execution =>
    refine covers_foldl_touch (lotCall_applyCall env execution) hwf hcov (openOf_nodup _ _)
      (fun id hid => mem_all_of_openOf hid) (fun id hid p hp => apply_back (h.2 id hid p hp))
      fun hs => ?_
    simp only [settlesAt_applyCall] at hs
    exact .inr (h.1 hs)
  | exit env id => exact h.elim
  | unlock paper => exact hcov
  | clearPending symbol =>
    show (tier.clearPending symbol).Covers
    unfold clearPending
    split
    · exact hcov
    · exact hcov

/-- A keeping event that settles a lot leaves the statistics current. -/
theorem current_step {tier : Tier} {event : Event} (hwf : tier.WellFormed)
    (h : Keeping tier event) (hsettles : Settles tier event) : (tier.step event).Current := by
  cases event with
  | update env symbol mark =>
    refine current_foldl_touch (hwf.all_nodup symbol) (fun id hid => hid) ?_ (h.1 hsettles)
    simp only [settlesAt_updateCall]
    exact hsettles
  | apply env execution =>
    refine current_foldl_touch (openOf_nodup _ _) (fun id hid => mem_all_of_openOf hid) ?_
      (.inr (h.1 hsettles))
    simp only [settlesAt_applyCall]
    exact hsettles
  | enter env symbol path pathFound => exact hsettles.elim
  | exit env id => exact hsettles.elim
  | unlock paper => exact hsettles.elim
  | clearPending symbol => exact hsettles.elim

/-- A settlement leaves a history. -/
theorem history_step_ne_nil {tier : Tier} {event : Event} (hwf : tier.WellFormed)
    (hsettles : Settles tier event) : (tier.step event).history ≠ [] := by
  cases event with
  | update env symbol mark =>
    refine history_foldl_touch_ne_nil (lotCall_updateCall env mark) (hwf.all_nodup symbol) ?_
    simp only [settlesAt_updateCall]
    exact hsettles
  | apply env execution =>
    refine history_foldl_touch_ne_nil (lotCall_applyCall env execution) (openOf_nodup _ _) ?_
    simp only [settlesAt_applyCall]
    exact hsettles
  | enter env symbol path pathFound => exact hsettles.elim
  | exit env id => exact hsettles.elim
  | unlock paper => exact hsettles.elim
  | clearPending symbol => exact hsettles.elim

/-! ## Runs -/

/-- Stored lots that `NewCache` restores without losing one: open lots are
open, closed lots are closed, and no two closed lots share a symbol. No stored
return is positive and below every positive float64. -/
structure StoredApart (storedOpen storedClosed : List Position) : Prop where
  opened : ∀ p ∈ storedOpen, p.closedAt = none
  closed : ∀ p ∈ storedClosed, p.closedAt.isSome
  distinct : (storedClosed.map Position.symbol).Nodup
  readable : ∀ p ∈ storedOpen ++ storedClosed, p.Readable

/-- Restoring lots of distinct symbols keeps an address for each. -/
theorem covers_restore (key : String) (stored : List Position) (acc : List Position × LotMap)
    (hnd : (stored.map Position.symbol).Nodup)
    (hfresh : ∀ p ∈ stored, acc.2.lookup p.symbol = none)
    (hacc : ∀ id q, acc.1[id]? = some q → q.closedAt.isSome → ∃ s, acc.2.lookup s = some id) :
    ∀ id q, (stored.foldl (restoreInto key) acc).1[id]? = some q → q.closedAt.isSome →
      ∃ s, (stored.foldl (restoreInto key) acc).2.lookup s = some id := by
  induction stored generalizing acc with
  | nil => exact hacc
  | cons x xs ih =>
    rw [List.map_cons, List.nodup_cons] at hnd
    have hxs : ∀ p ∈ xs, p.symbol ≠ x.symbol := fun p hp heq =>
      hnd.1 (List.mem_map.mpr ⟨p, hp, heq⟩)
    cases hr : restore key x with
    | none =>
      have hskip : restoreInto key acc x = acc := by rw [restoreInto, hr]
      rw [List.foldl_cons, hskip]
      exact ih acc hnd.2 (fun p hp => hfresh p (List.mem_cons_of_mem x hp)) hacc
    | some y =>
      have hsym : y.symbol = x.symbol := (restore_eq hr).1
      have hadd : restoreInto key acc x = (acc.1 ++ [y], acc.2.insert y.symbol acc.1.length) := by
        rw [restoreInto, hr]
      rw [List.foldl_cons, hadd]
      refine ih _ hnd.2 ?_ ?_
      · intro p hp
        rw [AList.lookup_insert_ne (by rw [hsym]; exact hxs p hp)]
        exact hfresh p (List.mem_cons_of_mem x hp)
      · intro id q hq hclosed
        -- an address restored before is of another symbol, so it is not overwritten
        by_cases hlt : id < acc.1.length
        · rw [List.getElem?_append_left hlt] at hq
          obtain ⟨s, hs⟩ := hacc id q hq hclosed
          refine ⟨s, ?_⟩
          have hne : s ≠ y.symbol := by
            intro heq
            rw [heq, hsym, hfresh x List.mem_cons_self] at hs
            cases hs
          rwa [AList.lookup_insert_ne hne]
        · have hid : id = acc.1.length := by
            have hlen := (List.getElem?_eq_some_iff.mp hq).1
            rw [List.length_append, List.length_singleton] at hlen
            exact Nat.le_antisymm (Nat.lt_succ_iff.mp hlen) (not_lt.mp hlt)
          exact ⟨y.symbol, by rw [hid, AList.lookup_insert]⟩

/-- A tier restored from stored lots apart covers its history. -/
theorem covers_new (cfg : Cfg) (tierType : TierType) (hasTransport : Bool)
    {storedOpen storedClosed : List Position} (h : StoredApart storedOpen storedClosed) :
    (new cfg tierType hasTransport storedOpen storedClosed).Covers := by
  refine covers_restore tierType.string storedClosed _ h.distinct
    (fun p _ => AList.lookup_empty p.symbol) ?_
  intro id q hq hclosed
  have hopen : ∀ x ∈ storedOpen, ∀ p, restore tierType.string x = some p → p.closedAt = none := by
    intro x hx p hp
    obtain ⟨-, hc, -⟩ := restore_eq hp
    exact hc.trans (h.opened x hx)
  have hq' := mem_foldl_restoreInto tierType.string storedOpen ([], ∅) hopen
    (fun q hq => by cases hq) q (List.mem_of_getElem? hq)
  rw [hq'] at hclosed
  cases hclosed

/-- Restoring keeps the returns. -/
theorem readable_new (cfg : Cfg) (tierType : TierType) (hasTransport : Bool)
    {storedOpen storedClosed : List Position} (h : StoredApart storedOpen storedClosed) :
    (new cfg tierType hasTransport storedOpen storedClosed).Readable := by
  have hrestore : ∀ x : Position, x.Readable → ∀ p, restore tierType.string x = some p →
      p.Readable := by
    intro x hx p hp
    unfold restore at hp
    split at hp
    · cases hp
    · cases hp
      exact hx
  exact fun id p hp => lot_new cfg tierType hasTransport
    (fun x hx => hrestore x (h.readable x (List.mem_append_left _ hx)))
    (fun x hx => hrestore x (h.readable x (List.mem_append_right _ hx))) hp

/-- Over a run of a tier, from any stored lots restored apart, whose events
forget no closed lot, the statistics after each settlement are those of all
lots closed so far. -/
theorem statistics_count_all (cfg : Cfg) (tierType : TierType) (hasTransport : Bool)
    (storedOpen storedClosed : List Position) (events : List Event)
    (hstored : StoredApart storedOpen storedClosed)
    (hkeeping : Along step Keeping (new cfg tierType hasTransport storedOpen storedClosed) events) :
    Along step CountsAll (new cfg tierType hasTransport storedOpen storedClosed) events := by
  have hstep : ∀ (tier : Tier) (event : Event),
      (tier.WellFormed ∧ tier.Covers) ∧ tier.Readable → Keeping tier event →
      ((tier.step event).WellFormed ∧ (tier.step event).Covers) ∧ (tier.step event).Readable :=
    fun tier event h hk =>
      ⟨⟨h.1.1.step event, covers_step h.1.1 h.1.2 hk⟩, readable_step h.2 event⟩
  refine along_of_inv hstep ?_
    ⟨⟨wellFormed_new cfg tierType hasTransport storedOpen storedClosed,
      covers_new cfg tierType hasTransport hstored⟩,
      readable_new cfg tierType hasTransport hstored⟩ hkeeping
  intro tier event h hk hsettles
  obtain ⟨⟨hwf', hcov'⟩, hread'⟩ := hstep tier event h hk
  obtain ⟨returns, hreturns, hwin, hedge⟩ := current_step h.1.1 hk hsettles
  have hperm := hreturns.trans (closedReturns_perm_history hwf' hcov')
  have hhistory := history_step_ne_nil h.1.1 hsettles
  constructor
  · rw [hwin, winRateOf_perm hperm, winRateOf, if_neg hhistory]
    dsimp only
    rw [countP_wins hread']
  · refine ⟨returns, hperm, ?_⟩
    rw [hedge, edgeOf, if_neg fun hnil => hhistory ?_]
    rw [hnil] at hperm
    exact hperm.nil_eq.symm

/-- A tier whose lots were all entered by it keeps them on a symbol without
closed lot. -/
theorem keeping_of_entered {tier : Tier} (hback : ∀ p ∈ tier.lots, p.hasOnSettled = true) :
    (∀ env symbol mark, tier.positions.closed.lookup symbol = none →
      Keeping tier (.update env symbol mark)) ∧
    ∀ env execution, tier.positions.closed.lookup execution.symbol = none →
      Keeping tier (.apply env execution) :=
  ⟨fun _ _ _ hc => ⟨fun _ => .inr hc, fun _ _ p hp _ => hback p (List.mem_of_getElem? hp)⟩,
    fun _ _ hc => ⟨fun _ => hc, fun _ _ p hp _ => hback p (List.mem_of_getElem? hp)⟩⟩

/-- A first round on a symbol is counted. -/
theorem statistics_count_all_sample :
    StoredApart [] [] ∧ Along step CountsAll (new Cfg.defaults .paper true [] [])
      (Desk.sampleRound "s" 100 80) := by
  have hstored : StoredApart [] [] :=
    ⟨fun p hp => absurd hp List.not_mem_nil, fun p hp => absurd hp List.not_mem_nil,
      List.nodup_nil, fun p hp => absurd hp List.not_mem_nil⟩
  refine ⟨hstored, statistics_count_all Cfg.defaults .paper true [] [] _ hstored ?_⟩
  refine ⟨.inl ⟨rfl, rfl⟩, ?_, ?_, trivial⟩
  · exact (keeping_of_entered (by decide +kernel)).2 _ _ (by decide +kernel)
  · exact (keeping_of_entered (by decide +kernel)).1 _ _ _ (by decide +kernel)

/-- A second round on the symbol replaces the lot of the first. -/
theorem second_round_not_counted :
    ¬ Along step CountsAll (new Cfg.defaults .paper true [] [])
      (Desk.sampleRound "s" 100 80 ++ Desk.sampleRound "t" 98 90) := by
  intro h
  obtain ⟨-, -, -, hcounts, -⟩ := along_append.mp h
  have hstops : (runFrom step (new Cfg.defaults .paper true [] []) (Desk.sampleRound "s" 100 80 ++
      (Desk.sampleRound "t" 98 90).dropLast)).settlesAt
        (updateCall (Desk.sampleEnv "t" 3 90) (some 90)) 1 = true := by
    decide +kernel
  have hlisted : 1 ∈ (runFrom step (new Cfg.defaults .paper true [] []) (Desk.sampleRound "s" 100 80 ++
      (Desk.sampleRound "t" 98 90).dropLast)).positions.all "A/B" := by
    decide +kernel
  obtain ⟨returns, hperm, hedge⟩ := (hcounts ⟨1, hlisted, settlesAt_updateCall.mp hstops⟩).2
  -- neither order of the two returns has the mean of the second
  have hnone : ∀ returns ∈ (runFrom step (new Cfg.defaults .paper true [] [])
      (Desk.sampleRound "s" 100 80 ++ Desk.sampleRound "t" 98 90)).history.permutations',
      (runFrom step (new Cfg.defaults .paper true [] [])
        (Desk.sampleRound "s" 100 80 ++ Desk.sampleRound "t" 98 90)).edge ≠
        Floating.average (returns.map .double) := by
    decide +kernel
  exact hnone returns (List.mem_permutations'.mpr hperm) hedge

end Tier

end Symm.Broker
