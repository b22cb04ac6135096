import Symm.Broker.Inventory

/-!
# Realised results

`Tier.Update` marks the closed lot of the symbol together with the open one,
and `Position.Update` reprices a lot before it looks at `ClosedAt`. A settled
lot keeps its stop, which only an open lot moves, but not its PnL: the theorem
says which marks leave it alone.

- `SameResult`: the realised result and the stop of a lot;
- `Repeats`: a mark finds no round trip, or the one recorded;
- `Undisturbed`: the closed lot of a marked symbol finds nothing new;
- `FinalStep`: an event is no mark, or it leaves every settled lot, and every statistic
  over a fixed set of settled lots, as it was.

`finalStep_iff` compares the last two event by event. One direction is the reading of a
lot; the other needs a mark that changes something to be seen to change it, so the
condition is read back from the lot that the mark reached. The run lemma is the
induction over events.
-/

namespace Symm.Broker

open Symm.System Symm.Lib

namespace Position

/-- A mark finds no round trip for the lot, or the recorded one. -/
def Repeats (env : Env) (p : Position) : Prop :=
  let fee := env.price.fee p.symbol
  ∀ pnl cost, env.price.roundTrip p.symbol p.quantity p.entryPrice fee fee = some (pnl, cost) →
    p.pnl = some pnl ∧
      p.pnlPct = env.price.roundTripPct p.symbol p.quantity p.entryPrice fee fee

/-- A reading keeps the return when it repeats it. -/
theorem readPnL_same_iff (env : Env) (p : Position) :
    ((p.readPnL env).pnl = p.pnl ∧ (p.readPnL env).pnlPct = p.pnlPct) ↔ p.Repeats env := by
  unfold Repeats readPnL
  dsimp only
  cases hround : env.price.roundTrip p.symbol p.quantity p.entryPrice
      (env.price.fee p.symbol) (env.price.fee p.symbol) with
  | none => exact iff_of_true ⟨rfl, rfl⟩ nofun
  | some round =>
    obtain ⟨pnl, cost⟩ := round
    constructor
    · rintro ⟨hpnl, hpct⟩ pnl' cost' heq
      cases heq
      exact ⟨hpnl.symm, hpct.symm⟩
    · intro h
      obtain ⟨hpnl, hpct⟩ := h pnl cost rfl
      exact ⟨hpnl.symm, hpct.symm⟩

/-- Neither the mark nor the exit reading is read by the round trip. -/
theorem readPnL_reading (env : Env) (mark : Option Decimal) (p : Position) :
    (((p.setMark mark).readExit env).readPnL env).pnl = (p.readPnL env).pnl ∧
      (((p.setMark mark).readExit env).readPnL env).pnlPct = (p.readPnL env).pnlPct ∧
      (((p.setMark mark).readExit env).readPnL env).stoploss = p.stoploss := by
  -- the round trip reads the same fills and the same market
  have hsame : ∀ q, q = (p.setMark mark).readExit env →
      q.symbol = p.symbol ∧ q.quantity = p.quantity ∧ q.entryPrice = p.entryPrice ∧
        q.pnl = p.pnl ∧ q.pnlPct = p.pnlPct ∧ q.stoploss = p.stoploss := by
    rintro _ rfl
    exact ⟨rfl, rfl, rfl, rfl, rfl, rfl⟩
  obtain ⟨hsymbol, hqty, hentry, hpnl, hpct, hstop⟩ := hsame _ rfl
  generalize (p.setMark mark).readExit env = q at hsymbol hqty hentry hpnl hpct hstop ⊢
  unfold readPnL
  dsimp only
  rw [hsymbol, hqty, hentry]
  cases env.price.roundTrip p.symbol p.quantity p.entryPrice (env.price.fee p.symbol)
    (env.price.fee p.symbol) with
  | none => exact ⟨hpnl, hpct, hstop⟩
  | some result => exact ⟨rfl, rfl, hstop⟩

/-- The realised result and the stop. -/
structure SameResult (p q : Position) : Prop where
  pnl : q.pnl = p.pnl
  pnlPct : q.pnlPct = p.pnlPct
  stoploss : q.stoploss = p.stoploss

/-- What a mark does to a closed lot: the reading and the PnL, never the stop. -/
theorem update_of_closed {p : Position} (hclosed : p.closedAt.isSome) (env : Env) (pace : ℚ)
    (mark : Option Decimal) :
    (p.update env pace mark).1 =
      if p.hasPrice then (((p.setMark mark).readExit env).readPnL env) else p.setMark mark := by
  have hmarked : p.marked env mark =
      if p.hasPrice then (((p.setMark mark).readExit env).readPnL env) else p.setMark mark := by
    unfold marked
    split
    · show ((((p.setMark mark).readExit env).readPnL env).arm env) = _
      have hc : (((p.setMark mark).readExit env).readPnL env).closedAt = p.closedAt :=
        (readPnL_spec env _).2.1
      -- only an open lot gets a stop
      unfold arm
      split
      · rw [if_neg]
        rintro ⟨-, hnone⟩
        rw [hc] at hnone
        rw [Option.isNone_iff_eq_none] at hnone
        rw [hnone] at hclosed
        cases hclosed
      · rfl
    · rfl
  -- and only an open lot has one that is looked at
  have hstop : (p.marked env mark).liveStop = none := by
    unfold liveStop
    rw [(marked_spec env mark p).2.1, if_pos hclosed]
  rcases update_cases env pace mark p with ⟨-, heq⟩ | ⟨stop, pct, hlive, -⟩
  · rw [heq]
    exact hmarked
  · rw [hstop] at hlive
    cases hlive

/-- A closed lot keeps its result under a mark when it is not priced, or priced
as before. -/
theorem sameResult_update_iff {p : Position} (hclosed : p.closedAt.isSome) (env : Env) (pace : ℚ)
    (mark : Option Decimal) :
    SameResult p (p.update env pace mark).1 ↔ (p.hasPrice = true → p.Repeats env) := by
  rw [update_of_closed hclosed]
  cases p.hasPrice with
  | false => exact iff_of_true ⟨rfl, rfl, rfl⟩ nofun
  | true =>
    obtain ⟨hpnl, hpct, hstop⟩ := readPnL_reading env mark p
    rw [if_pos rfl, imp_iff_right rfl, ← readPnL_same_iff, ← hpnl, ← hpct]
    exact ⟨fun h => ⟨h.pnl, h.pnlPct⟩, fun h => ⟨h.1, h.2, hstop⟩⟩

end Position

namespace Tier

/-- The lot at this address was closed and has left the open cache. -/
def Settled (tier : Tier) (id : LotId) : Prop :=
  (∃ p, tier.lot id = some p ∧ p.closedAt.isSome) ∧
    ∀ s, tier.positions.opened.lookup s ≠ some id

/-- The returns of a fixed list of lots. -/
def returnsOf (tier : Tier) (ids : List LotId) : List ℚ :=
  (ids.filterMap tier.lot).filterMap Position.pnlPct

/-- The event is no mark, or leaves every settled result alone, and with them
the statistics of any fixed set of settled lots. -/
structure FinalStep (tier : Tier) (event : Event) : Prop where
  lots : ∀ env symbol mark, event = .update env symbol mark → ∀ id p, tier.Settled id →
    tier.lot id = some p → ∃ q, (tier.step event).lot id = some q ∧ Position.SameResult p q
  statistics : ∀ env symbol mark, event = .update env symbol mark →
    ∀ ids : List LotId, (∀ id ∈ ids, tier.Settled id) →
      winRateOf ((tier.step event).returnsOf ids) = winRateOf (tier.returnsOf ids) ∧
        edgeOf ((tier.step event).returnsOf ids) = edgeOf (tier.returnsOf ids)

/-- The closed lot of a marked symbol, unless it was restored or left the open
cache without `ClosedAt`, finds no round trip or its recorded one. -/
def Undisturbed (tier : Tier) : Event → Prop
  | .update env symbol _ => ∀ id p, tier.positions.closed.lookup symbol = some id →
      tier.lot id = some p → p.closedAt.isSome → p.hasPrice = true → p.Repeats env
  | _ => True

/-- A mark reaches the settled lots that are closed under its symbol. -/
theorem lot_update_of_settled {tier : Tier} (hwf : tier.WellFormed) {id : LotId}
    (hs : tier.Settled id) (env : Env) (symbol : String) (mark : Option Decimal) :
    (tier.update env symbol mark).lot id =
      if tier.positions.closed.lookup symbol = some id then
        (tier.lot id).map fun p => (p.update env (env.pace id) mark).1
      else tier.lot id := by
  rw [lot_update (hwf.all_nodup symbol)]
  have hmem : id ∈ tier.positions.all symbol ↔ tier.positions.closed.lookup symbol = some id := by
    rw [Cache.mem_all]
    exact or_iff_right (hs.2 symbol)
  by_cases hc : tier.positions.closed.lookup symbol = some id
  · rw [if_pos hc, if_pos (hmem.mpr hc)]
  · rw [if_neg hc, if_neg (mt hmem.mp hc)]

/-- Lots that keep their results keep their returns. -/
theorem returnsOf_congr {tier tier' : Tier} {ids : List LotId}
    (h : ∀ id ∈ ids, (tier'.lot id).bind Position.pnlPct = (tier.lot id).bind Position.pnlPct) :
    tier'.returnsOf ids = tier.returnsOf ids := by
  unfold returnsOf
  rw [List.filterMap_filterMap, List.filterMap_filterMap]
  exact List.filterMap_congr h

/-- Other events are no marks. -/
theorem FinalStep.of_other {tier : Tier} {event : Event}
    (h : ∀ env symbol mark, event ≠ .update env symbol mark) : FinalStep tier event :=
  ⟨fun env symbol mark heq => absurd heq (h env symbol mark),
    fun env symbol mark heq => absurd heq (h env symbol mark)⟩

/-- A mark that is final finds the closed lot undisturbed. -/
theorem FinalStep.undisturbed {tier : Tier} (hwf : tier.WellFormed) {env : Env} {symbol : String}
    {mark : Option Decimal} (h : FinalStep tier (.update env symbol mark)) :
    Undisturbed tier (.update env symbol mark) := by
  intro id p hc hp hclosed
  have hsettled : tier.Settled id := by
    refine ⟨⟨p, hp, hclosed⟩, fun s hs => ?_⟩
    have heq := Points.inj hwf.opened hwf.closed hs hc
    exact hwf.apart s id hs (heq ▸ hc)
  obtain ⟨q, hq, hsame⟩ := h.lots env symbol mark rfl id p hsettled hp
  have hupdate := lot_update_of_settled hwf hsettled env symbol mark
  rw [if_pos hc, hp, Option.map_some] at hupdate
  have hq' : q = (p.update env (env.pace id) mark).1 := Option.some.inj (hq.symm.trans hupdate)
  rw [hq'] at hsame
  exact (Position.sameResult_update_iff hclosed env (env.pace id) mark).mp hsame

/-- A mark that finds the closed lot undisturbed keeps every settled result. -/
theorem sameResult_update {tier : Tier} (hwf : tier.WellFormed) {env : Env} {symbol : String}
    {mark : Option Decimal} (h : Undisturbed tier (.update env symbol mark)) {id : LotId}
    {p : Position} (hsettled : tier.Settled id) (hp : tier.lot id = some p) :
    ∃ q, (tier.update env symbol mark).lot id = some q ∧ Position.SameResult p q := by
  rw [lot_update_of_settled hwf hsettled, hp]
  have hclosed : p.closedAt.isSome := by
    obtain ⟨p', hp', hclosed⟩ := hsettled.1
    rwa [Option.some.inj (hp.symm.trans hp')]
  split
  · rename_i hc
    exact ⟨_, rfl, (Position.sameResult_update_iff hclosed env (env.pace id) mark).mpr
      (h id p hc hp hclosed)⟩
  · exact ⟨p, rfl, ⟨rfl, rfl, rfl⟩⟩

/-- Marks that disturb no settled lot leave each as it is. -/
theorem finalStep_update {tier : Tier} (hwf : tier.WellFormed) {env : Env} {symbol : String}
    {mark : Option Decimal} (h : Undisturbed tier (.update env symbol mark)) :
    FinalStep tier (.update env symbol mark) := by
  refine ⟨fun _ _ _ _ id p hsettled hp => sameResult_update hwf h hsettled hp,
    fun _ _ _ _ ids hids => ?_⟩
  have hreturns : (tier.update env symbol mark).returnsOf ids = tier.returnsOf ids := by
    refine returnsOf_congr fun id hid => ?_
    obtain ⟨p, hp, -⟩ := (hids id hid).1
    obtain ⟨q, hq, hsame⟩ := sameResult_update hwf h (hids id hid) hp
    rw [hp, hq]
    exact hsame.pnlPct
  exact ⟨congrArg winRateOf hreturns, congrArg edgeOf hreturns⟩

/-- An event leaves the settled lots and their statistics as they are exactly if it disturbs
none. -/
theorem finalStep_iff {tier : Tier} (hwf : tier.WellFormed) (event : Event) :
    FinalStep tier event ↔ Undisturbed tier event := by
  cases event with
  | update env symbol mark => exact ⟨FinalStep.undisturbed hwf, finalStep_update hwf⟩
  | enter env symbol path pathFound =>
    exact iff_of_true (FinalStep.of_other fun _ _ _ h => Event.noConfusion h) True.intro
  | apply env execution =>
    exact iff_of_true (FinalStep.of_other fun _ _ _ h => Event.noConfusion h) True.intro
  | exit env id =>
    exact iff_of_true (FinalStep.of_other fun _ _ _ h => Event.noConfusion h) True.intro
  | unlock paper =>
    exact iff_of_true (FinalStep.of_other fun _ _ _ h => Event.noConfusion h) True.intro
  | clearPending symbol =>
    exact iff_of_true (FinalStep.of_other fun _ _ _ h => Event.noConfusion h) True.intro

/-- Along every run of a tier the marks leave settled results alone exactly
when each finds the closed lot of its symbol undisturbed. -/
theorem settled_final_iff (cfg : Cfg) (tierType : TierType) (hasTransport : Bool)
    (storedOpen storedClosed : List Position) (events : List Event) :
    Along step FinalStep (new cfg tierType hasTransport storedOpen storedClosed) events ↔
      Along step Undisturbed (new cfg tierType hasTransport storedOpen storedClosed) events := by
  have hstep : ∀ (tier : Tier) (event : Event), tier.WellFormed → FinalStep tier event →
      (tier.step event).WellFormed := fun _ event hwf _ => hwf.step event
  have hiff : ∀ (tier : Tier) (event : Event), tier.WellFormed →
      (FinalStep tier event ↔ Undisturbed tier event) := fun _ event hwf => finalStep_iff hwf event
  exact along_iff_of_inv hstep hiff
    (wellFormed_new cfg tierType hasTransport storedOpen storedClosed) events

/-- After a round that realised a loss, the market recovers and the closed lot
shows a profit. -/
theorem sampleRecovery_not_final :
    ¬ Along step FinalStep (new Cfg.defaults .paper true [] [])
      (Desk.sampleRound "s" 100 80 ++ [.update (Desk.sampleEnv "s" 9 120) "A/B" (some 120)]) := by
  intro h
  obtain ⟨hlots, -⟩ := (along_append.mp h).2.1
  have hclosed : ((runFrom step (new Cfg.defaults .paper true [] [])
      (Desk.sampleRound "s" 100 80)).lot 0).any (fun p => p.closedAt.isSome) = true := by
    decide +kernel
  have hopened : (runFrom step (new Cfg.defaults .paper true [] [])
      (Desk.sampleRound "s" 100 80)).positions.openAll = [] := by
    decide +kernel
  have hmoved : ((step (runFrom step (new Cfg.defaults .paper true [] [])
      (Desk.sampleRound "s" 100 80)) (.update (Desk.sampleEnv "s" 9 120) "A/B" (some 120))).lot
        0).bind Position.pnl ≠
      ((runFrom step (new Cfg.defaults .paper true [] [])
        (Desk.sampleRound "s" 100 80)).lot 0).bind Position.pnl := by
    decide +kernel
  obtain ⟨p, hp, hc⟩ := Option.any_eq_true _ _ |>.mp hclosed
  have hsettled : Settled (runFrom step (new Cfg.defaults .paper true [] [])
      (Desk.sampleRound "s" 100 80)) 0 := by
    refine ⟨⟨p, hp, hc⟩, fun s hs => ?_⟩
    have hmem := Cache.mem_openAll.mpr ⟨s, hs⟩
    rw [hopened] at hmem
    cases hmem
  obtain ⟨q, hq, hsame⟩ := hlots _ _ _ rfl 0 p hsettled hp
  rw [hp, hq] at hmoved
  exact hmoved hsame.pnl

end Tier

end Symm.Broker
