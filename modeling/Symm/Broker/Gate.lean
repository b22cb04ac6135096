import Symm.Broker.Statistics
import Mathlib.Algebra.Order.BigOperators.Group.List
import Mathlib.Algebra.BigOperators.Group.List.Basic

/-!
# The real-money gate

`Unlocked` is documented to open a real tier only while paper is healthy and,
"once real has closed history", while real is healthy too. It decides both from
the cached `WinRate` and `Edge`, and reads "no history" from two zeros. This
module says when the cached statistics are those of the closed lots: they must
have been computed since start-up, no later mark may reprice a closed lot, and
a history that nets to nothing must not pass for none.

`Profitable` speaks of the exact returns, the gate of float64s. A share of wins
above one half is exact enough (`lt_two_mul_of_half_lt`), but a mean is added up
in the order of the closed map and may miss the sign of the exact one:

- `PositiveKept`: no order of the returns turns a mean that is not positive into
  one that is;
- `ReadsAsNone`: in some order the returns pass for no history.

The statistics are recomputed when a lot closes and at no other time. A tier that was
restored has the zeros it was made with, whatever its closed lots say, until one closes.

- `Known`: the closed lots are dated and have a return;
- `Tracked`: a step leaves the closed lots as they were when the statistics were
  computed, and no real entry is asked for where a rounded mean misleads;
- `gate_justified`: along tracked runs the gate opens for a profitable desk alone.
-/

namespace Symm.Broker

open Symm.System Symm.Lib

namespace Tier

/-- The lots in the closed cache. -/
def closedLots (tier : Tier) : List Position := tier.positions.closedAll.filterMap tier.lot

/-- The mean of some returns. -/
def meanReturn (returns : List ℚ) : ℚ := returns.sum / returns.length

/-- More than half of the closed lots have a positive return, and so has their
mean. -/
def Profitable (tier : Tier) : Prop :=
  tier.closedLots.length < 2 * tier.closedLots.countP (fun p => p.pnlPct.any (0 < ·)) ∧
    0 < meanReturn (tier.closedLots.filterMap Position.pnlPct)

instance (tier : Tier) : Decidable tier.Profitable := inferInstanceAs (Decidable (_ ∧ _))

/-- A float64 mean of the returns is positive only where their mean is, in
whatever order they are added up. -/
def PositiveKept (returns : List ℚ) : Prop :=
  ∀ order : List ℚ, order.Perm returns → Floating.lt (.finite 0) (edgeOf order) →
    0 < meanReturn returns

theorem positiveKept_of_pos {returns : List ℚ} (h : 0 < meanReturn returns) :
    PositiveKept returns := fun _ _ _ => h

/-- Without returns the mean is zero in every order. -/
theorem positiveKept_of_nil {returns : List ℚ} (h : returns = []) : PositiveKept returns := by
  subst h
  intro order hperm hpos
  rw [hperm.eq_nil, edgeOf_nil, Floating.lt, decide_eq_true_iff] at hpos
  exact absurd hpos (lt_irrefl 0)

/-- Added up in some order, the returns have the statistics of a tier without
history: no return wins, and the mean is zero. -/
def ReadsAsNone (returns : List ℚ) : Prop :=
  ∃ order : List ℚ, order.Perm returns ∧ winRateOf order = .finite 0 ∧ edgeOf order = .finite 0

/-- Every lot in the closed cache has a close time and a return. -/
def Known (tier : Tier) : Prop :=
  ∀ symbol id, tier.positions.closed.lookup symbol = some id →
    ∀ p, tier.lot id = some p → p.closedAt.isSome ∧ p.pnlPct.isSome

/-- `tier'` has the returns and statistics of `tier`, or current ones. -/
def Carries (tier tier' : Tier) : Prop :=
  (tier'.closedReturns = tier.closedReturns ∧ tier'.winRate = tier.winRate ∧
    tier'.edge = tier.edge) ∨ tier'.Current

theorem Carries.refl (tier : Tier) : Carries tier tier := .inl ⟨rfl, rfl, rfl⟩

/-- Statistics that were current stay current. -/
theorem Carries.current {tier tier' : Tier} (h : Carries tier tier') (hc : tier.Current) :
    tier'.Current := by
  rcases h with ⟨hr, hw, he⟩ | h
  · obtain ⟨returns, hperm, hwin, hedge⟩ := hc
    exact ⟨returns, hr ▸ hperm, hw.trans hwin, he.trans hedge⟩
  · exact h

theorem Carries.trans {t t' t'' : Tier} (h : Carries t t') (h' : Carries t' t'') :
    Carries t t'' := by
  rcases h with ⟨hr, hw, he⟩ | h
  · rcases h' with ⟨hr', hw', he'⟩ | h'
    · exact .inl ⟨hr'.trans hr, hw'.trans hw, he'.trans he⟩
    · exact .inr h'
  · exact .inr (h'.current h)

/-! ## What current statistics say -/

/-- With close times everywhere, the returns are those of the closed lots. -/
theorem closedReturns_of_known {tier : Tier} (h : tier.Known) :
    tier.closedReturns = tier.closedLots.filterMap Position.pnlPct := by
  refine List.filterMap_congr fun p hp => ?_
  obtain ⟨id, hid, hlot⟩ := List.mem_filterMap.mp hp
  obtain ⟨s, hs⟩ := Cache.mem_closedAll.mp hid
  rw [if_pos (h s id hs p hlot).1]

/-- Positive returns are counted alike over lots and over known returns. -/
theorem countP_filterMap_pnlPct (lots : List Position) :
    (lots.filterMap Position.pnlPct).countP (0 < ·) =
      lots.countP fun p => p.pnlPct.any (0 < ·) := by
  rw [List.countP_filterMap]
  congr 1
  funext p
  cases p.pnlPct <;> rfl

/-- With a return on every lot, there are as many returns as lots. -/
theorem length_filterMap_pnlPct {lots : List Position} (h : ∀ p ∈ lots, p.pnlPct.isSome) :
    (lots.filterMap Position.pnlPct).length = lots.length := by
  rw [List.length_filterMap_eq_countP, List.countP_eq_length]
  exact h

theorem half_not_lt_zero : ¬ Floating.lt (.finite (1 / 2)) (.finite 0) = true := by
  decide +kernel

/-- A share of wins above a half is one of positive returns. -/
theorem lt_two_mul_of_winRateOf {returns : List ℚ}
    (h : Floating.lt (.finite (1 / 2)) (winRateOf returns) = true) :
    returns.length < 2 * returns.countP (0 < ·) := by
  unfold winRateOf at h
  split at h
  · exact absurd h half_not_lt_zero
  · have hwins := Floating.lt_two_mul_of_half_lt h
    have hle : (returns.countP fun pnlPct => Floating.lt (.finite 0) (.double pnlPct)) ≤
        returns.countP (0 < ·) :=
      List.countP_mono_left fun pnlPct _ hwin => decide_eq_true (Floating.pos_of_lt_double hwin)
    omega

/-- An `ok` tier with current statistics over known returns is profitable, unless
rounding turned the sign of its mean. -/
theorem profitable_of_ok {tier : Tier} (hknown : tier.Known) (hcur : tier.Current)
    (hkept : PositiveKept tier.closedReturns) (hok : tier.ok = true) : tier.Profitable := by
  have hreturns := closedReturns_of_known hknown
  have hlen : tier.closedReturns.length = tier.closedLots.length := by
    rw [hreturns]
    refine length_filterMap_pnlPct fun p hp => ?_
    obtain ⟨id, hid, hlot⟩ := List.mem_filterMap.mp hp
    obtain ⟨s, hs⟩ := Cache.mem_closedAll.mp hid
    exact (hknown s id hs p hlot).2
  obtain ⟨hwin, hedge⟩ : Floating.lt (.finite (1 / 2)) tier.winRate = true ∧
      Floating.lt (.finite 0) tier.edge = true := of_decide_eq_true hok
  obtain ⟨returns, hperm, hwinRate, hedgeOf⟩ := hcur
  rw [hwinRate, winRateOf_perm hperm] at hwin
  rw [hedgeOf] at hedge
  have hcount := lt_two_mul_of_winRateOf hwin
  refine ⟨?_, hreturns ▸ hkept returns hperm hedge⟩
  rw [← hlen, ← countP_filterMap_pnlPct, ← hreturns]
  exact hcount

/-! ## Operations -/

section

variable {tier : Tier} {symbol : String} {order : MapOrder}
  {call : LotId → Position → Position × Bool}

/-- A lot about to be called, listed under `symbol`: it is the open lot of the
symbol or has closed, and if it is the closed one its return stays. -/
def Listed (call : LotId → Position → Position × Bool) (symbol : String) (tier : Tier)
    (id : LotId) : Prop :=
  ∀ p, tier.lot id = some p → p.symbol = symbol ∧
    (tier.positions.opened.lookup symbol = some id ∨ p.closedAt.isSome) ∧
    (tier.positions.closed.lookup symbol = some id → (call id p).1.pnlPct = p.pnlPct)

/-- A lot that settles is the open one of its symbol. -/
theorem Listed.opened_of_settles (hcall : ∀ id, Position.LotCall (call id)) {id : LotId}
    (h : Listed call symbol tier id) (hs : tier.settlesAt call id = true) :
    tier.positions.opened.lookup symbol = some id := by
  obtain ⟨p, hp, hcalled⟩ := settlesAt_iff.mp hs
  obtain ⟨-, hopen, -⟩ := h p hp
  refine hopen.resolve_right fun hclosed => ?_
  rw [((hcall id).settled p hcalled).1] at hclosed
  cases hclosed

/-- Touching a listed lot without a callback keeps the closed returns. -/
theorem known_touch_of_quiet (hcall : ∀ id, Position.LotCall (call id)) (hwf : tier.WellFormed)
    (hknown : tier.Known) {id : LotId} (h : Listed call symbol tier id)
    (hs : tier.settlesAt call id = false) :
    (tier.touch order call id).Known ∧ Carries tier (tier.touch order call id) := by
  obtain ⟨lots, he⟩ := touch_of_quiet hs
  have hpos : (tier.touch order call id).positions = tier.positions := by rw [he]
  -- a closed lot has the same return after the touch
  have hclosed : ∀ s x, tier.positions.closed.lookup s = some x →
      ∃ p q, tier.lot x = some p ∧ (tier.touch order call id).lot x = some q ∧
        q.closedAt.isSome ∧ p.closedAt.isSome ∧ q.pnlPct = p.pnlPct := by
    intro s x hx
    obtain ⟨p, hp, hps⟩ := hwf.closed s x hx
    have hpc := (hknown s x hx p hp).1
    by_cases hid : x = id
    · subst hid
      obtain ⟨hsym, -, hpnl⟩ := h p hp
      refine ⟨p, (call x p).1, hp, by rw [lot_touch, if_pos rfl, hp, Option.map_some],
        ((hcall x).stays p hpc).1, hpc, hpnl ?_⟩
      rw [← hsym, hps]
      exact hx
    · exact ⟨p, p, hp, by rw [lot_touch, if_neg hid, hp], hpc, hpc, rfl⟩
  constructor
  · intro s x hx q hq
    rw [hpos] at hx
    obtain ⟨p, q', hp, hq', hqc, -, hpnl⟩ := hclosed s x hx
    rw [hq'] at hq
    cases hq
    exact ⟨hqc, by rw [hpnl]; exact (hknown s x hx p hp).2⟩
  · refine .inl ⟨?_, by rw [he], by rw [he]⟩
    rw [closedReturns_eq, closedReturns_eq, hpos]
    refine List.filterMap_congr fun x hx => ?_
    obtain ⟨s, hs'⟩ := Cache.mem_closedAll.mp hx
    obtain ⟨p, q, hp, hq, hqc, hpc, hpnl⟩ := hclosed s x hs'
    rw [returnAt, returnAt, hp, hq, Option.bind_some, Option.bind_some, Position.closedReturn,
      Position.closedReturn, if_pos hqc, if_pos hpc, hpnl]

/-- A listed lot that settles joins the closed cache with a known return, and
the statistics are recomputed. -/
theorem known_touch_of_settles (hcall : ∀ id, Position.LotCall (call id)) (hwf : tier.WellFormed)
    (hknown : tier.Known) {id : LotId} (h : Listed call symbol tier id)
    (hs : tier.settlesAt call id = true) :
    (tier.touch order call id).Known ∧ Carries tier (tier.touch order call id) := by
  refine ⟨?_, .inr (current_touch hs)⟩
  have hopen := h.opened_of_settles hcall hs
  obtain ⟨p, hp, hcalled⟩ := settlesAt_iff.mp hs
  obtain ⟨-, hpc, hpnl⟩ := (hcall id).settled p hcalled
  have hsym : ∀ q, tier.lot id = some q → (call id q).1.symbol = symbol := fun q hq => by
    rw [((hcall id).same q).symbol]
    exact (h q hq).1
  intro s x hx q hq
  rw [touch_positions hsym, if_pos hs, Cache.lookup_remove_closed] at hx
  rw [lot_touch] at hq
  split at hx
  · rw [hopen, Option.some_or] at hx
    cases hx
    rw [if_pos rfl, hp, Option.map_some] at hq
    cases hq
    exact ⟨hpc, hpnl⟩
  · rename_i hne
    obtain ⟨q', hq', hqs⟩ := hwf.closed s x hx
    have hid : x ≠ id := by
      intro heq
      subst heq
      exact hne (hqs.symm.trans (h q' hq').1)
    rw [if_neg hid] at hq
    exact hknown s x hx q hq

/-- Another lot that is listed stays listed: a call changes the lot it is made on, and a
settlement moves only that one. -/
theorem listed_touch (hcall : ∀ id, Position.LotCall (call id)) {id id' : LotId}
    (h : Listed call symbol tier id) (hne : id' ≠ id) (h' : Listed call symbol tier id') :
    Listed call symbol (tier.touch order call id) id' := by
  intro p hp
  rw [lot_touch, if_neg hne] at hp
  obtain ⟨hsym, hopen, hpnl⟩ := h' p hp
  have hsymid : ∀ q, tier.lot id = some q → (call id q).1.symbol = symbol := fun q hq => by
    rw [((hcall id).same q).symbol]
    exact (h q hq).1
  rw [touch_positions hsymid]
  cases hs : tier.settlesAt call id with
  | false => exact ⟨hsym, hopen, hpnl⟩
  | true =>
    have hid := h.opened_of_settles hcall hs
    refine ⟨hsym, .inr (hopen.resolve_left fun ho => ?_), fun hc => ?_⟩
    · exact hne (Option.some.inj (ho.symm.trans hid))
    · rw [if_pos rfl, Cache.lookup_remove_closed, if_pos rfl, hid, Option.some_or] at hc
      exact absurd (Option.some.inj hc).symm hne

/-- Calls on the listed lots of a symbol keep the closed returns known, and the
statistics either carried over or current. -/
theorem known_foldl_touch (symbol : String) (hcall : ∀ id, Position.LotCall (call id))
    {ids : List LotId}
    (hnd : ids.Nodup) (hwf : tier.WellFormed) (hknown : tier.Known)
    (hlisted : ∀ id ∈ ids, Listed call symbol tier id) :
    (ids.foldl (touch order call) tier).Known ∧ Carries tier (ids.foldl (touch order call) tier) := by
  induction ids generalizing tier with
  | nil => exact ⟨hknown, Carries.refl tier⟩
  | cons x xs ih =>
    obtain ⟨hx, hxs⟩ := List.nodup_cons.mp hnd
    have hhead := hlisted x List.mem_cons_self
    obtain ⟨hknown', hcarries⟩ :
        (tier.touch order call x).Known ∧ Carries tier (tier.touch order call x) := by
      cases hs : tier.settlesAt call x with
      | false => exact known_touch_of_quiet hcall hwf hknown hhead hs
      | true => exact known_touch_of_settles hcall hwf hknown hhead hs
    have hrest : ∀ id ∈ xs, Listed call symbol (tier.touch order call x) id := by
      intro id hid
      have hne : id ≠ x := fun heq => hx (heq ▸ hid)
      exact listed_touch hcall hhead hne (hlisted id (List.mem_cons_of_mem x hid))
    obtain ⟨hk, hc⟩ := ih hxs (hwf.touch hcall x) hknown' hrest
    exact ⟨hk, hcarries.trans hc⟩

end

/-- No mark on the symbol reprices its closed lot. -/
def KeepsReturn (env : Env) (symbol : String) (mark : Option Decimal) (tier : Tier) : Prop :=
  ∀ id p, tier.positions.closed.lookup symbol = some id → tier.lot id = some p →
    (p.update env (env.pace id) mark).1.pnlPct = p.pnlPct

/-- Marks that keep the returns keep them known, and the statistics are carried on or made
current. -/
theorem known_update {tier : Tier} {env : Env} {symbol : String} {mark : Option Decimal}
    (hwf : tier.WellFormed) (hknown : tier.Known) (h : KeepsReturn env symbol mark tier) :
    (tier.update env symbol mark).Known ∧ Carries tier (tier.update env symbol mark) := by
  refine known_foldl_touch symbol (lotCall_updateCall env mark) (hwf.all_nodup symbol) hwf hknown
    fun id hid p hp => ⟨hwf.symbol_of_all hid hp, ?_, fun hc => h id p hc hp⟩
  rcases Cache.mem_all.mp hid with ho | hc
  · exact .inl ho
  · exact .inr (hknown symbol id hc p hp).1

/-- Execution reports touch open lots only, so they always do. -/
theorem known_apply {tier : Tier} {env : Env} {execution : ExecutionData}
    (hwf : tier.WellFormed) (hknown : tier.Known) :
    (tier.apply env execution).Known ∧ Carries tier (tier.apply env execution) := by
  refine known_foldl_touch execution.symbol (lotCall_applyCall env execution)
    (openOf_nodup _ _) hwf hknown fun id hid p hp => ?_
  have ho := mem_openOf.mp hid
  exact ⟨hwf.symbol_of_all (mem_all_of_openOf hid) hp, .inl ho,
    fun hc => absurd hc (hwf.apart _ _ ho)⟩

/-- A tier with the closed map of another, its lots and its statistics. -/
theorem known_of_same {tier tier' : Tier} (hwf : tier.WellFormed) (hknown : tier.Known)
    (hclosed : tier'.positions.closed = tier.positions.closed)
    (hlot : ∀ id q, tier.lot id = some q → tier'.lot id = some q)
    (hwin : tier'.winRate = tier.winRate) (hedge : tier'.edge = tier.edge) :
    tier'.Known ∧ Carries tier tier' := by
  constructor
  · intro s id hs q hq
    rw [hclosed] at hs
    obtain ⟨q', hq', -⟩ := hwf.closed s id hs
    rw [hlot id q' hq'] at hq
    rw [← Option.some.inj hq]
    exact hknown s id hs q' hq'
  · refine .inl ⟨?_, hwin, hedge⟩
    rw [closedReturns_eq, closedReturns_eq, Cache.closedAll, Cache.closedAll, hclosed]
    refine List.filterMap_congr fun id hid => ?_
    obtain ⟨s, hs⟩ := Cache.mem_closedAll.mp hid
    obtain ⟨q, hq, -⟩ := hwf.closed s id hs
    rw [returnAt, returnAt, hlot id q hq, hq]

/-- Only a failed write on a symbol with a closed lot takes a return away. -/
theorem known_enter {tier : Tier} {env : Env} {symbol path : String} {pathFound : Bool}
    (hwf : tier.WellFormed) (hknown : tier.Known)
    (h : (env.marshalOk = true ∧ env.writeOk = true) ∨
      tier.positions.closed.lookup symbol = none) :
    (tier.enter env symbol path pathFound).1.Known ∧
      Carries tier (tier.enter env symbol path pathFound).1 := by
  rcases enter_cases env symbol path pathFound tier with ⟨-, he, -⟩ | ⟨p, vol, -, -, hp, he⟩
  · rw [he]
    exact ⟨hknown, Carries.refl tier⟩
  · obtain ⟨-, hold⟩ := lot_addLot tier symbol p
    -- the closed map and the lots it points to are those of before
    have hclosed : ((tier.addLot symbol p).send env p .enter).1.positions.closed =
        tier.positions.closed := by
      rcases send_cases env p .enter (tier.addLot symbol p) with
        ⟨-, hs⟩ | ⟨hfail, hs⟩ | ⟨_, -, hs⟩
      · rw [hs, addLot, Cache.add_closed]
      · have hnone : tier.positions.closed.lookup symbol = none :=
          h.resolve_left fun hw => by simp [hw.1, hw.2] at hfail
        rw [hs]
        show AList.erase p.symbol (tier.positions.add symbol _).closed = _
        rw [Cache.add_closed, hp.symbol]
        exact AList.ext (List.kerase_of_notMem_keys (AList.lookup_eq_none.mp hnone))
      · rw [hs, addLot, Cache.add_closed]
    obtain ⟨hlots, -, hwin, hedge, -⟩ := send_frame env p .enter (tier.addLot symbol p)
    have hlot : ∀ id q, tier.lot id = some q →
        ((tier.addLot symbol p).send env p .enter).1.lot id = some q := by
      intro id q hq
      rw [lot, hlots]
      exact hold id q hq
    rw [he]
    exact known_of_same hwf hknown hclosed hlot hwin hedge

/-- An `Exit` handed a lot of a symbol that is not open moves nothing. -/
theorem known_exit {tier : Tier} {env : Env} {p : Position} (hwf : tier.WellFormed)
    (hknown : tier.Known) (hopened : tier.positions.opened.lookup p.symbol = none)
    (h : (env.marshalOk = true ∧ env.writeOk = true) ∨
      tier.positions.closed.lookup p.symbol = none) :
    (tier.exit env p).1.Known ∧ Carries tier (tier.exit env p).1 := by
  have hexit : (tier.exit env p).1 = (tier.send env p .exit).1 := by
    unfold exit
    rw [Cache.remove_of_absent hopened]
  have hclosed : (tier.exit env p).1.positions.closed = tier.positions.closed := by
    rw [hexit]
    rcases send_cases env p .exit tier with ⟨-, hs⟩ | ⟨hfail, hs⟩ | ⟨_, -, hs⟩
    · rw [hs]
    · have hnone : tier.positions.closed.lookup p.symbol = none :=
        h.resolve_left fun hw => by simp [hw.1, hw.2] at hfail
      rw [hs]
      exact AList.ext (List.kerase_of_notMem_keys (AList.lookup_eq_none.mp hnone))
    · rw [hs]
  obtain ⟨hlots, -, hwin, hedge, -⟩ := send_frame env p .exit tier
  rw [← hexit] at hlots hwin hedge
  exact known_of_same hwf hknown hclosed (fun id q hq => by rw [lot, hlots]; exact hq) hwin hedge

end Tier

namespace Desk

/-- An entry that passes the gate of the real tier does so on profitable paper
lots, and on profitable real lots if there are any. -/
def GateJustified (desk : Desk) : Event → Prop
  | .enter _ _ _ .real _ =>
    ((desk.tiers .real).unlock (some (desk.tiers .paper))).unlocked = true →
      (desk.tiers .paper).Profitable ∧
        ((desk.tiers .real).closedLots = [] ∨ (desk.tiers .real).Profitable)
  | _ => True

/-- The events between which the cached statistics of the paper and the real
tier stay those of their closed lots: no mark reprices a closed lot, no failed
write drops one, and no `Exit` adds one. A real entry is asked for while no order
of the closed paper or real lots has a positive float64 mean that is not, and no
order of the closed real lots passes for no history. -/
def Tracked (desk : Desk) : Event → Prop
  | .mark env symbol price =>
    ∀ tt, tt ≠ .virtual → (desk.tiers tt).KeepsReturn (env tt) symbol price
  | .apply _ => True
  | .enter env symbol _ tt _ =>
    (tt ≠ .virtual → (env.marshalOk = true ∧ env.writeOk = true) ∨
      (desk.tiers tt).positions.closed.lookup symbol = none) ∧
    (tt = .real → Tier.PositiveKept (desk.tiers .paper).closedReturns ∧
      Tier.PositiveKept (desk.tiers .real).closedReturns ∧
      ((desk.tiers .real).closedLots = [] ∨
        ¬ Tier.ReadsAsNone (desk.tiers .real).closedReturns))
  | .exit env owner id tt =>
    tt ≠ .virtual → ∀ p, desk.lot owner id = some p →
      (desk.tiers tt).positions.opened.lookup p.symbol = none ∧
      ((env.marshalOk = true ∧ env.writeOk = true) ∨
        (desk.tiers tt).positions.closed.lookup p.symbol = none)
  | .clearPending _ => True

/-- Stored lots under which the statistics, zero at start-up, mislead no gate:
no closed real lot, and closed paper lots with a close time and a return. -/
structure StoredKnown (stored : TierType → Stored) : Prop where
  real : ∀ p ∈ (stored .real).closed, p.symbol = ""
  paper : ∀ p ∈ (stored .paper).closed, p.closedAt.isSome ∧ p.pnlPct.isSome

/-- The invariant of tracked runs. Paper statistics are current once paper has
settled a lot; until then they are zero and no gate opens. -/
structure GateInv (desk : Desk) : Prop where
  wellFormed : desk.WellFormed
  known : ∀ tt, tt ≠ .virtual → (desk.tiers tt).Known
  paper : (desk.tiers .paper).Current ∨
    ((desk.tiers .paper).winRate = .finite 0 ∧ (desk.tiers .paper).edge = .finite 0)
  real : (desk.tiers .real).Current

/-- Tiers whose closed returns stay known and whose statistics are carried over
or recomputed keep the invariant. -/
theorem GateInv.mono {desk desk' : Desk} (h : GateInv desk) (hwf : desk'.WellFormed)
    (htiers : ∀ tt, tt ≠ .virtual →
      (desk'.tiers tt).Known ∧ Tier.Carries (desk.tiers tt) (desk'.tiers tt)) :
    GateInv desk' where
  wellFormed := hwf
  known tt htt := (htiers tt htt).1
  paper := by
    have hc := (htiers .paper (by decide)).2
    rcases h.paper with hcur | ⟨hw, he⟩
    · exact .inl (hc.current hcur)
    · rcases hc with ⟨-, hw', he'⟩ | hcur
      · exact .inr ⟨hw'.trans hw, he'.trans he⟩
      · exact .inl hcur
  real := (htiers .real (by decide)).2.current h.real

/-- A tracked event keeps the invariant. -/
theorem GateInv.step {desk : Desk} {event : Event} (h : GateInv desk)
    (htracked : Tracked desk event) : GateInv (desk.step event) := by
  refine h.mono (h.wellFormed.step event) fun tt htt => ?_
  have hwf := (h.wellFormed tt).1
  have hknown := h.known tt htt
  cases event with
  | mark env symbol price =>
    show ((desk.mark env symbol price).tiers tt).Known ∧
      Tier.Carries (desk.tiers tt) ((desk.mark env symbol price).tiers tt)
    unfold mark
    split
    · exact ⟨hknown, Tier.Carries.refl _⟩
    · exact Tier.known_update hwf hknown (htracked tt htt)
  | apply report => exact Tier.known_apply hwf hknown
  | enter env symbol path tt' pathFound =>
    -- an entry is made in one tier only
    by_cases heq : tt = tt'
    · subst heq
      simp only [Desk.step, Desk.enter, set_self]
      exact Tier.known_enter (hwf.step (.unlock (some (desk.tiers .paper)))) hknown
        (htracked.1 htt)
    · simp only [Desk.step, Desk.enter, set_other _ _ heq]
      exact ⟨hknown, Tier.Carries.refl _⟩
  | exit env owner id tt' =>
    cases hl : desk.lot owner id with
    | none =>
      simp only [Desk.step, hl]
      exact ⟨hknown, Tier.Carries.refl _⟩
    | some p =>
      by_cases heq : tt = tt'
      · subst heq
        obtain ⟨hopened, hwrites⟩ := htracked htt p hl
        simp only [Desk.step, hl, Desk.exit, set_self]
        exact Tier.known_exit hwf hknown hopened hwrites
      · simp only [Desk.step, hl, Desk.exit, set_other _ _ heq]
        exact ⟨hknown, Tier.Carries.refl _⟩
  | clearPending symbol =>
    show ((desk.tiers tt).clearPending symbol).Known ∧
      Tier.Carries (desk.tiers tt) ((desk.tiers tt).clearPending symbol)
    unfold Tier.clearPending
    split
    · exact ⟨hknown, Tier.Carries.refl _⟩
    · exact ⟨hknown, .inl ⟨rfl, rfl, rfl⟩⟩

/-- A tier whose statistics are zero is not ok. -/
theorem not_ok_of_zero {tier : Tier} (h : tier.winRate = .finite 0) : tier.ok = false := by
  unfold Tier.ok
  rw [h]
  exact decide_eq_false fun hok => Tier.half_not_lt_zero hok.1

/-- Under the invariant the gate decides on the returns of the closed lots. -/
theorem gateJustified_of_inv {desk : Desk} {event : Event} (h : GateInv desk)
    (htracked : Tracked desk event) : GateJustified desk event := by
  cases event with
  | enter env symbol path tt pathFound =>
    cases tt with
    | virtual => trivial
    | paper => trivial
    | real =>
      intro hgate
      have hreal : (desk.tiers .real).tierType = .real := (h.wellFormed .real).2
      -- the gate of the real tier asks for both tiers
      obtain ⟨hpaper, hown⟩ : (desk.tiers .paper).ok = true ∧
          (((desk.tiers .real).winRate = .finite 0 ∧ (desk.tiers .real).edge = .finite 0) ∨
            (desk.tiers .real).ok = true) := by
        simpa [Tier.unlock, Tier.gate, hreal] using hgate
      obtain ⟨hpaperKept, hrealKept, hhistory⟩ := htracked.2 rfl
      constructor
      · refine Tier.profitable_of_ok (h.known .paper (by decide)) ?_ hpaperKept hpaper
        refine h.paper.resolve_right fun hzero => ?_
        rw [not_ok_of_zero hzero.1] at hpaper
        cases hpaper
      · rcases hown with ⟨hwin, hedge⟩ | hok
        · -- both statistics are zero, so there is no history or it passes for none
          refine .inl (hhistory.resolve_right fun hnot => hnot ?_)
          obtain ⟨returns, hperm, hwinRate, hedgeOf⟩ := h.real
          exact ⟨returns, hperm, hwinRate.symm.trans hwin, hedgeOf.symm.trans hedge⟩
        · exact .inr (Tier.profitable_of_ok (h.known .real (by decide)) h.real hrealKept hok)
  | mark env symbol price => trivial
  | apply report => trivial
  | exit env owner id tt => trivial
  | clearPending symbol => trivial

/-- The invariant holds at start-up, where the statistics are zero and no gate is open. -/
theorem gateInv_new (cfg : Cfg) (hasTransport : TierType → Bool) {stored : TierType → Stored}
    (h : StoredKnown stored) : GateInv (new cfg hasTransport stored) := by
  have hreal : ∀ s, ((new cfg hasTransport stored).tiers .real).positions.closed.lookup s = none := by
    intro s
    by_contra hne
    obtain ⟨id, hid⟩ := Option.ne_none_iff_exists'.mp hne
    have hnone : ∀ x ∈ (stored .real).closed, ∀ p, Tier.restore "real" x = some p → False :=
      fun x hx p hp => by simp [Tier.restore, h.real x hx] at hp
    exact (Tier.closed_new cfg .real (hasTransport .real) (stored .real).opened
      (stored .real).closed hnone s id hid).2.elim fun p hp => hp.2.2
  -- a stored closed lot of the paper tier has its return, restored or dropped
  have hkept : ∀ x ∈ (stored .paper).closed, ∀ p, Tier.restore "paper" x = some p →
      p.closedAt.isSome ∧ p.pnlPct.isSome := by
    intro x hx p hp
    unfold Tier.restore at hp
    split at hp
    · cases hp
    · cases hp
      exact h.paper x hx
  have hpaper := Tier.closed_new cfg .paper (hasTransport .paper) (stored .paper).opened
    (stored .paper).closed hkept
  refine ⟨wellFormed_new cfg hasTransport stored, fun tt htt => ?_, .inr ⟨rfl, rfl⟩, ?_⟩
  · cases tt with
    | virtual => exact absurd rfl htt
    | paper =>
      intro s id hs q hq
      obtain ⟨-, p, hp, -, hk⟩ := hpaper s id hs
      change (Tier.new cfg .paper _ _ _).lot id = some q at hq
      rw [hp] at hq
      cases hq
      exact hk
    | real =>
      intro s id hs
      rw [hreal s] at hs
      cases hs
  · have hnil : ((new cfg hasTransport stored).tiers .real).closedReturns = [] := by
      rw [Tier.closedReturns_eq]
      refine List.filterMap_eq_nil_iff.mpr fun id hid => ?_
      obtain ⟨s, hs⟩ := Cache.mem_closedAll.mp hid
      rw [hreal s] at hs
      cases hs
    exact ⟨[], hnil ▸ List.Perm.nil, rfl, rfl⟩

/-- In a tracked run from stored lots without a closed real one, every entry on
the real tier that passes the gate is justified by the closed lots. -/
theorem gate_justified (cfg : Cfg) (hasTransport : TierType → Bool)
    (stored : TierType → Stored) (events : List Event) (hstored : StoredKnown stored)
    (htracked : Along step Tracked (new cfg hasTransport stored) events) :
    Along step GateJustified (new cfg hasTransport stored) events :=
  along_of_inv (fun _ _ h ht => GateInv.step h ht) (fun _ _ h ht => gateJustified_of_inv h ht)
    (gateInv_new cfg hasTransport hstored) htracked

/-- A mark on a symbol without closed lots reprices none. -/
theorem tracked_mark {desk : Desk} {env : TierType → Env} {symbol : String}
    {price : Option Decimal}
    (h : ∀ tt, (desk.tiers tt).positions.closed.lookup symbol = none) :
    Tracked desk (.mark env symbol price) := by
  intro tt _ id p hc
  rw [h tt] at hc
  cases hc

/-- A paper lot wins, then an entry on the real tier is asked for. -/
def sampleWin : List Event := [
  .enter (sampleEnv "p" 1 99) "A/B" "p" .paper true,
  .apply (fun _ => sampleEnv "p" 2 99, sampleFill "p1" 100),
  .mark (fun _ => sampleEnv "p" 3 106) "A/B" (some 106),
  .mark (fun _ => sampleEnv "p" 4 103) "A/B" (some 103),
  .enter (sampleEnv "r" 5 99) "A/B" "p" .real true]

/-- A paper win opens the gate of the real tier, justified. -/
theorem gate_justified_sample :
    StoredKnown (fun _ => ⟨[], []⟩) ∧
      Along step GateJustified (new Cfg.defaults (fun _ => true) fun _ => ⟨[], []⟩) sampleWin := by
  have hstored : StoredKnown fun _ => ⟨[], []⟩ :=
    ⟨fun p hp => absurd hp List.not_mem_nil, fun p hp => absurd hp List.not_mem_nil⟩
  refine ⟨hstored, gate_justified Cfg.defaults (fun _ => true) _ sampleWin hstored ?_⟩
  refine ⟨⟨fun _ => .inl ⟨rfl, rfl⟩, fun h => by cases h⟩, trivial, ?_, ?_,
    ⟨fun _ => .inl ⟨rfl, rfl⟩, fun _ => ⟨Tier.positiveKept_of_pos ?_, ?_, .inl ?_⟩⟩, trivial⟩
  · exact tracked_mark fun tt => by cases tt <;> decide +kernel
  · exact tracked_mark fun tt => by cases tt <;> decide +kernel
  · decide +kernel
  · -- the real tier has no closed lot yet
    exact Tier.positiveKept_of_nil (by decide +kernel)
  · decide +kernel

/-- The same run over a stored real loss. -/
def sampleLoss : TierType → Stored
  | .real => ⟨[], [{ Position.new "A/B" "real" "p" "x" with
      closedAt := some 1, pnlPct := some (-5) }]⟩
  | _ => ⟨[], []⟩

/-- A restored loss passes for no history. -/
theorem sampleLoss_not_justified :
    ¬ Along step GateJustified (new Cfg.defaults (fun _ => true) sampleLoss) sampleWin := by
  rintro ⟨-, -, -, -, hgate, -⟩
  have hown := (hgate (by decide +kernel)).2
  revert hown
  decide +kernel

end Desk

end Symm.Broker
