import Symm.Broker.Finality
import Symm.Broker.Walk

/-!
# Virtual samples

A virtual lot is entered without a transport, so no report ever names its
orders, and its entry price is that of its buy reports. A mark prices such a lot
only if a report of another tier's order on the symbol was applied to it; the
theorem says exactly when, over runs of a virtual tier.

- `Bought`: a ready lot that was bought, at a fee that leaves it a cost;
- `Sample`: a lot that its tier entered: it calls back, and it is priced only once
  bought;
- `Sampled`: the invariant of a tier, that every lot with a price is such a lot;
- `PricesSamples`: what a mark is meant to do to the ready samples of its symbol;
- `SamplesBought`: the condition, asked of the samples as a mark finds them.

`pricesSamples_iff` is about one mark, and rests on two readings of `Position.Update`: a
ready lot is priced if it was bought (`readPnL_of_bought`), and one with an entry price
that is priced was bought (`bought_of_readPnL`). A lot restored from the store has no
entry price, so the invariant holds of every new tier.
-/

namespace Symm.Broker

open Symm.System Symm.Lib

/-- A return at or below the floor triggers the stop. -/
theorem Stoploss.triggered_of_floor {stop : Stoploss} {pct pace : ℚ}
    (h : pct ≤ (stop.mark pct pace).floorPnLPct) : (stop.update pct pace).triggered = true := by
  unfold triggered update
  by_cases hstate : stop.state = .triggered
  · rw [if_pos hstate, hstate]
    rfl
  · rw [if_neg hstate]
    dsimp only
    rw [if_pos h]
    rfl

/-! ## Pricing a lot -/

/-- A round trip has a return when it costs something. -/
theorem Price.roundTripPct_isSome {price : Price} {symbol : String}
    {quantity entry entryFee exitFee : Option Decimal} {profit cost : Decimal}
    (h : price.roundTrip symbol quantity entry entryFee exitFee = some (profit, cost)) :
    (price.roundTripPct symbol quantity entry entryFee exitFee).isSome ↔ 0 < cost := by
  unfold roundTripPct
  rw [h]
  by_cases hcost : 0 < cost <;> simp [hcost]

/-- No entry price, no round trip. -/
theorem Price.roundTrip_of_unbought (price : Price) (symbol : String)
    (quantity fee : Option Decimal) : price.roundTrip symbol quantity none fee fee = none := by
  unfold roundTrip
  cases quantity <;> rfl

namespace Position

/-- The book of the lot's symbol is ready, its fee known, and its bids hold the
lot's size. -/
def Ready (env : Env) (p : Position) : Prop :=
  ∃ managed fee qty, env.price.books p.symbol = some managed ∧ bookReady managed = true ∧
    env.price.fee p.symbol = some fee ∧ p.quantity = some qty ∧ 0 < qty ∧
    qty ≤ depth (offers managed.bids)

/-- The entry price is that of a buy report, and positive. -/
theorem entryPrice_pos {p : Position} {entry : Decimal} (h : p.entryPrice = some entry) :
    0 < entry := by
  have hfold : ∀ x ∈ p.entryPrice, 0 < x := by
    unfold entryPrice
    refine List.foldlRecOn (motive := fun acc => ∀ x ∈ acc, 0 < x) p.fills _
      (fun _ hnone => nomatch hnone) fun acc hacc fill _ => ?_
    split
    · split
      · rename_i avgPrice _ havg
        intro x hx
        obtain rfl := Option.some.inj hx
        exact of_decide_eq_true (Option.filter_eq_some_iff.mp havg).2
      · rename_i lastPrice _ hlast
        intro x hx
        obtain rfl := Option.some.inj hx
        exact of_decide_eq_true (Option.filter_eq_some_iff.mp hlast).2
      · exact hacc
    · exact hacc
  exact hfold entry h

/-- Reports are only added, and an entry price stays known. -/
theorem entryPrice_addFill {p : Position} (execution : ExecutionData)
    (h : p.entryPrice.isSome) : (p.addFill execution).entryPrice.isSome := by
  unfold entryPrice addFill at *
  dsimp only at *
  rw [List.foldl_append, List.foldl_cons, List.foldl_nil]
  split
  · split
    · rfl
    · rfl
    · exact h
  · exact h

/-- What an update leaves of the return and the stop. -/
theorem update_result (env : Env) (pace : ℚ) (mark : Option Decimal) (p : Position) :
    (p.update env pace mark).1.pnl = (p.marked env mark).pnl ∧
      (p.update env pace mark).1.pnlPct = (p.marked env mark).pnlPct ∧
      ((p.marked env mark).stoploss.isSome → (p.update env pace mark).1.stoploss.isSome) := by
  rcases update_cases env pace mark p with ⟨-, heq⟩ | ⟨stop, pct, -, ⟨-, heq⟩ | ⟨-, heq⟩⟩
  · rw [heq]
    exact ⟨rfl, rfl, fun h => h⟩
  · rw [heq]
    exact ⟨rfl, rfl, fun _ => rfl⟩
  · rw [heq]
    exact ⟨rfl, rfl, fun _ => rfl⟩

/-- What a mark leaves of the return, and that a known one is guarded. -/
theorem marked_result (env : Env) (mark : Option Decimal) {p : Position}
    (hprice : p.hasPrice = true) :
    (p.marked env mark).pnl = (p.readPnL env).pnl ∧
      (p.marked env mark).pnlPct = (p.readPnL env).pnlPct ∧
      (p.closedAt = none → (p.readPnL env).pnlPct.isSome →
        (p.marked env mark).stoploss.isSome) := by
  have hmarked : p.marked env mark = ((((p.setMark mark).readExit env).readPnL env).arm env) := by
    unfold marked
    rw [if_pos hprice]
    rfl
  have hread := readPnL_reading env mark p
  have hopen : (((p.setMark mark).readExit env).readPnL env).closedAt = p.closedAt :=
    (readPnL_spec env _).2.1
  rw [hmarked, ← hread.1, ← hread.2.1]
  generalize (((p.setMark mark).readExit env).readPnL env) = q at hopen ⊢
  unfold arm
  cases hpct : q.pnlPct with
  | none => exact ⟨rfl, hpct, nofun⟩
  | some pct =>
    dsimp only
    split
    · exact ⟨rfl, rfl, fun _ _ => rfl⟩
    · rename_i harmed
      refine ⟨rfl, hpct, fun hnone _ => ?_⟩
      rw [hopen, hnone] at harmed
      cases hs : q.stoploss with
      | none => exact absurd ⟨by rw [hs]; rfl, rfl⟩ harmed
      | some stoploss => rfl

/-- A ready lot that was bought, at a fee that leaves it a cost. -/
structure Bought (env : Env) (p : Position) : Prop where
  entry : p.entryPrice.isSome
  cost : ∀ fee, env.price.fee p.symbol = some fee → -100 < fee

/-- A ready lot is priced by a mark if it was bought. -/
theorem readPnL_of_bought {env : Env} {p : Position} (hready : p.Ready env)
    (hb : p.Bought env) : (p.readPnL env).pnl.isSome ∧ (p.readPnL env).pnlPct.isSome := by
  obtain ⟨managed, fee, qty, hbook, hok, hfee, hqty, hq, hdepth⟩ := hready
  obtain ⟨entry, hentry⟩ := Option.isSome_iff_exists.mp hb.entry
  have he := entryPrice_pos hentry
  have hround := Price.roundTrip_of_ready fee hbook hok hq hdepth he
  have hcost : 0 < entry * qty * (1 + 1 / 100 * fee) := by
    have hrate : 0 < 1 + 1 / 100 * fee := by
      have := hb.cost fee hfee
      linarith
    exact mul_pos (mul_pos he hq) hrate
  have hpct := (Price.roundTripPct_isSome hround).mpr hcost
  unfold readPnL
  dsimp only
  rw [hqty, hentry, hfee, hround]
  exact ⟨rfl, hpct⟩

/-- A ready lot whose entry price is known was bought, if its return is known. -/
theorem bought_of_readPnL {env : Env} {p : Position} (hready : p.Ready env)
    (hentry : p.entryPrice.isSome) (hpct : (p.readPnL env).pnlPct.isSome) : p.Bought env := by
  refine ⟨hentry, fun fee hfee => ?_⟩
  obtain ⟨managed, fee', qty, hbook, hok, hfee', hqty, hq, hdepth⟩ := hready
  obtain rfl := Option.some.inj (hfee.symm.trans hfee')
  obtain ⟨entry, he⟩ := Option.isSome_iff_exists.mp hentry
  have hpos := entryPrice_pos he
  have hround := Price.roundTrip_of_ready fee hbook hok hq hdepth hpos
  unfold readPnL at hpct
  dsimp only at hpct
  rw [hqty, he, hfee, hround] at hpct
  have hcost : 0 < entry * qty * (1 + 1 / 100 * fee) :=
    (Price.roundTripPct_isSome hround).mp hpct
  have hrate : 0 < 1 + 1 / 100 * fee := pos_of_mul_pos_right hcost (mul_pos hpos hq).le
  linarith

/-- A lot entered by its tier: it calls back, and is priced only once bought. -/
structure Sample (p : Position) : Prop where
  back : p.hasOnSettled = true
  bought : p.pnl.isSome → p.entryPrice.isSome

/-- A sample has a return only once it has an entry price. -/
theorem Sample.readPnL {p : Position} (h : p.Sample) (env : Env) :
    (p.readPnL env).pnl.isSome → p.entryPrice.isSome := by
  unfold Position.readPnL
  dsimp only
  cases hentry : p.entryPrice with
  | none =>
    rw [Price.roundTrip_of_unbought]
    intro hp
    have := h.bought hp
    rwa [hentry] at this
  | some entry => exact fun _ => rfl

/-- A mark keeps a sample one. -/
theorem Sample.update {p : Position} (h : p.Sample) (hprice : p.hasPrice = true) (env : Env)
    (pace : ℚ) (mark : Option Decimal) : (p.update env pace mark).1.Sample := by
  obtain ⟨hsame, hfills⟩ := update_spec env pace mark p
  refine ⟨hsame.hasOnSettled.trans h.back, fun hp => ?_⟩
  rw [(update_result env pace mark p).1, (marked_result env mark hprice).1] at hp
  unfold entryPrice
  rw [hfills]
  exact h.readPnL env hp

/-- A report does too: its entry price comes from a fill. -/
theorem Sample.apply {p : Position} (h : p.Sample) (hprice : p.hasPrice = true) (env : Env)
    (pace : ℚ) (execution : ExecutionData) : (p.apply env pace execution).1.Sample := by
  have hadd : (p.addFill execution).Sample :=
    ⟨h.back, fun hp => entryPrice_addFill execution (h.bought hp)⟩
  obtain ⟨hsame, hfills, -⟩ := stampClose_spec env (p.addFill execution)
  have hstamp : ((p.addFill execution).stampClose env).Sample := by
    refine ⟨hsame.hasOnSettled.trans hadd.back, fun hp => ?_⟩
    have hpnl : ((p.addFill execution).stampClose env).pnl = (p.addFill execution).pnl := by
      unfold stampClose
      split <;> rfl
    unfold entryPrice
    rw [hfills]
    exact hadd.bought (hpnl ▸ hp)
  unfold Position.apply
  split
  · exact hadd
  · exact hstamp.update (hsame.hasPrice.trans hprice) env pace _

end Position

namespace Tier

/-! ## What is open after an event -/

/-- After a fold of calls on lots of one symbol, what is open was open and was
not settled. -/
theorem opened_foldl_touch {order : MapOrder} {call : LotId → Position → Position × Bool}
    (hcall : ∀ id, Position.LotCall (call id)) {tier : Tier} (hwf : tier.WellFormed)
    {ids : List LotId} (hnd : ids.Nodup) {symbol : String}
    (hall : ∀ id ∈ ids, id ∈ tier.positions.all symbol) {s : String} {id : LotId}
    (h : (ids.foldl (touch order call) tier).positions.opened.lookup s = some id) :
    tier.positions.opened.lookup s = some id ∧ (id ∈ ids → tier.settlesAt call id = false) := by
  have hsym : ∀ id ∈ ids, ∀ p, tier.lot id = some p → (call id p).1.symbol = symbol := by
    intro id hid p hp
    rw [((hcall id).same p).symbol]
    exact hwf.symbol_of_all (hall id hid) hp
  rw [foldl_touch_positions hnd hsym] at h
  split at h
  · rw [Cache.lookup_remove_opened] at h
    split at h
    · cases h
    · rename_i hs
      refine ⟨h, fun hid => ?_⟩
      obtain ⟨p, hp, rfl⟩ := hwf.opened s id h
      exact absurd (hwf.symbol_of_all (hall id hid) hp) hs
  · rename_i hquiet
    refine ⟨h, fun hid => ?_⟩
    by_contra hsettles
    exact hquiet (List.any_eq_true.mpr ⟨id, hid, Bool.eq_true_of_not_eq_false hsettles⟩)

/-- Every lot with a price was entered by this tier, and is open while it is in
the open cache. -/
structure Sampled (tier : Tier) : Prop where
  wf : tier.WellFormed
  sample : ∀ id p, tier.lot id = some p → p.hasPrice = true → p.Sample
  opened : ∀ s id p, tier.positions.opened.lookup s = some id → tier.lot id = some p →
    p.hasPrice = true → p.closedAt = none

/-- A loop over the lots of a symbol keeps all samples of the tier. -/
theorem Sampled.foldl_touch {order : MapOrder} {call : LotId → Position → Position × Bool}
    (hcall : ∀ id, Position.LotCall (call id))
    (hsample : ∀ id p, p.Sample → p.hasPrice = true → (call id p).1.Sample)
    {tier : Tier} (h : tier.Sampled) {ids : List LotId} (hnd : ids.Nodup) {symbol : String}
    (hall : ∀ id ∈ ids, id ∈ tier.positions.all symbol) :
    (ids.foldl (touch order call) tier).Sampled := by
  refine ⟨h.wf.foldl_touch hcall ids, fun id q hq hprice => ?_, fun s id q hs hq hprice => ?_⟩
  · rw [lot_foldl_touch hnd] at hq
    split at hq
    · obtain ⟨p, hp, rfl⟩ := Option.map_eq_some_iff.mp hq
      have hp' : p.hasPrice = true := ((hcall id).same p).hasPrice.symm.trans hprice
      exact hsample id p (h.sample id p hp hp') hp'
    · exact h.sample id q hq hprice
  · obtain ⟨hopened, hquiet⟩ := opened_foldl_touch hcall h.wf hnd hall hs
    rw [lot_foldl_touch hnd] at hq
    split at hq
    · rename_i hid
      obtain ⟨p, hp, rfl⟩ := Option.map_eq_some_iff.mp hq
      have hp' : p.hasPrice = true := ((hcall id).same p).hasPrice.symm.trans hprice
      have hq' := hquiet hid
      rw [settlesAt_of_some hp] at hq'
      exact ((hcall id).quiet p hq' (h.sample id p hp hp').back).mpr (h.opened s id p hopened hp hp')
    · exact h.opened s id q hopened hq hprice

/-- Fewer open lots, the same lots. -/
theorem Sampled.mono {tier tier' : Tier} (h : tier.Sampled) (hwf : tier'.WellFormed)
    (hlots : tier'.lots = tier.lots)
    (hopened : ∀ s id, tier'.positions.opened.lookup s = some id →
      tier.positions.opened.lookup s = some id) : tier'.Sampled := by
  have hlot : ∀ id, tier'.lot id = tier.lot id := fun id => by rw [lot, lot, hlots]
  refine ⟨hwf, fun id p hp => h.sample id p (hlot id ▸ hp), fun s id p hs hp => ?_⟩
  exact h.opened s id p (hopened s id hs) (hlot id ▸ hp)

/-- Sending opens nothing. -/
theorem opened_send (env : Env) (p : Position) (action : SendAction) (tier : Tier) {s : String}
    {id : LotId} (h : (tier.send env p action).1.positions.opened.lookup s = some id) :
    tier.positions.opened.lookup s = some id := by
  rcases send_cases env p action tier with ⟨-, he⟩ | ⟨-, he⟩ | ⟨_, -, he⟩
  · rwa [he] at h
  · rw [he] at h
    change (tier.positions.drop p.symbol).opened.lookup s = some id at h
    unfold Cache.drop at h
    by_cases hs : s = p.symbol
    · subst hs
      rw [AList.lookup_erase] at h
      cases h
    · rwa [AList.lookup_erase_ne hs] at h
  · rwa [he] at h

/-- An entry keeps the samples: the new one is open, and has no return yet. -/
theorem Sampled.enter {tier : Tier} (h : tier.Sampled) (env : Env) (symbol path : String)
    (pathFound : Bool) : (tier.enter env symbol path pathFound).1.Sampled := by
  have hwf := h.wf.enter env symbol path pathFound
  rcases enter_cases env symbol path pathFound tier with ⟨-, he, -⟩ | ⟨p, vol, -, -, hp, he⟩
  · rw [he]
    exact h
  · have hnew : p.Sample := ⟨hp.hasOnSettled, fun hpnl => by rw [hp.pnl] at hpnl; cases hpnl⟩
    rw [he] at hwf ⊢
    refine ⟨hwf, fun id q hq hprice => ?_, fun s id q hs hq hprice => ?_⟩
    · rw [lot, (send_frame env p .enter _).1] at hq
      rcases lot_of_addLot hq with hold | ⟨-, rfl⟩
      · exact h.sample id q hold hprice
      · exact hnew
    · rw [lot, (send_frame env p .enter _).1] at hq
      rcases lot_of_addLot hq with hold | ⟨-, rfl⟩
      · have hopened : (tier.positions.add symbol tier.lots.length).opened.lookup s = some id :=
          opened_send env p .enter _ hs
        rcases Cache.lookup_add hopened with hbefore | ⟨-, hid⟩
        · exact h.opened s id q hbefore hold hprice
        · exact absurd (lot_lt hold) (by rw [hid]; exact lt_irrefl _)
      · exact hp.closedAt

theorem Sampled.exit {tier : Tier} (h : tier.Sampled) (env : Env) (p : Position) :
    (tier.exit env p).1.Sampled := by
  refine h.mono (h.wf.exit env p) (send_frame env p .exit _).1 fun s id hs => ?_
  have hremoved : (tier.positions.remove p.symbol).opened.lookup s = some id :=
    opened_send env p .exit _ hs
  rw [Cache.lookup_remove_opened] at hremoved
  split at hremoved
  · cases hremoved
  · exact hremoved

/-- Every event keeps the samples of a tier. -/
theorem Sampled.step {tier : Tier} (h : tier.Sampled) (event : Event) :
    (tier.step event).Sampled := by
  cases event with
  | enter env symbol path pathFound => exact h.enter env symbol path pathFound
  | update env symbol mark =>
    exact h.foldl_touch (lotCall_updateCall env mark)
      (fun id p hp hprice => hp.update hprice env (env.pace id) mark) (h.wf.all_nodup symbol)
      fun _ hid => hid
  | apply env execution =>
    exact h.foldl_touch (lotCall_applyCall env execution)
      (fun id p hp hprice => hp.apply hprice env (env.pace id) execution)
      (openOf_nodup tier.positions execution.symbol) fun _ hid => mem_all_of_openOf hid
  | exit env id =>
    cases hl : tier.lot id with
    | none => simpa only [Tier.step, hl] using h
    | some p => simpa only [Tier.step, hl] using h.exit env p
  | unlock paper => exact h.mono (h.wf.step (.unlock paper)) rfl fun _ _ hs => hs
  | clearPending symbol =>
    obtain ⟨-, -, hlots, hpos⟩ := clearPending_frame tier symbol
    exact h.mono (h.wf.clearPending symbol) hlots fun s id hs => by
      change (tier.clearPending symbol).positions.opened.lookup s = some id at hs
      rwa [hpos] at hs

/-- In a new tier no lot has a price: stored lots are restored without one. -/
theorem sampled_new (cfg : Cfg) (tierType : TierType) (hasTransport : Bool)
    (storedOpen storedClosed : List Position) :
    (new cfg tierType hasTransport storedOpen storedClosed).Sampled := by
  have hrestore : ∀ x p, restore tierType.string x = some p → p.hasPrice = false := by
    intro x p hx
    unfold restore at hx
    split at hx
    · cases hx
    · cases hx
      rfl
  have hunpriced : ∀ id p, (new cfg tierType hasTransport storedOpen storedClosed).lot id = some p →
      p.hasPrice = false := fun _ _ hp =>
    lot_new cfg tierType hasTransport (fun x _ => hrestore x) (fun x _ => hrestore x) hp
  refine ⟨wellFormed_new cfg tierType hasTransport storedOpen storedClosed,
    fun id p hp hprice => ?_, fun _ id p _ hp hprice => ?_⟩
  · rw [hunpriced id p hp] at hprice
    cases hprice
  · rw [hunpriced id p hp] at hprice
    cases hprice

/-! ## Samples -/

/-- A mark prices every open lot of its symbol that this tier entered and that is
ready, guards it with a stop, and settles it when its return is at or below the
floor it is judged by. -/
def PricesSamples (tier : Tier) : Event → Prop
  | .update env symbol mark => ∀ id p, tier.positions.opened.lookup symbol = some id →
      tier.lot id = some p → p.hasPrice = true → p.Ready env →
      ∃ q, (tier.update env symbol mark).lot id = some q ∧
        q.pnl.isSome ∧ q.pnlPct.isSome ∧ q.stoploss.isSome ∧
        ∀ stop pct, (p.marked env mark).liveStop = some (stop, pct) →
          pct ≤ (stop.mark pct (env.pace id)).floorPnLPct →
          q.closedAt.isSome ∧ (tier.update env symbol mark).positions.opened.lookup symbol = none ∧
            (tier.update env symbol mark).positions.closed.lookup symbol = some id
  | _ => True

/-- A mark finds only such lots bought. -/
def SamplesBought (tier : Tier) : Event → Prop
  | .update env symbol _ => ∀ id p, tier.positions.opened.lookup symbol = some id →
      tier.lot id = some p → p.hasPrice = true → p.Ready env → p.Bought env
  | _ => True

/-- The lot after a mark of its symbol. -/
theorem lot_update_of_opened {tier : Tier} (hwf : tier.WellFormed) {symbol : String} {id : LotId}
    (hid : tier.positions.opened.lookup symbol = some id) {p : Position}
    (hp : tier.lot id = some p) (env : Env) (mark : Option Decimal) :
    (tier.update env symbol mark).lot id = some (p.update env (env.pace id) mark).1 := by
  rw [lot_update (hwf.all_nodup symbol), if_pos (Cache.mem_all.mpr (.inl hid)), hp]
  rfl

/-- A return at or below the floor settles an open lot that calls back. -/
theorem settled_of_floor {tier : Tier} (hwf : tier.WellFormed) {env : Env} {symbol : String}
    {mark : Option Decimal} {id : LotId} {p : Position}
    (hid : tier.positions.opened.lookup symbol = some id) (hp : tier.lot id = some p)
    (hback : p.hasOnSettled = true) {stop : Stoploss} {pct : ℚ}
    (hlive : (p.marked env mark).liveStop = some (stop, pct))
    (hfloor : pct ≤ (stop.mark pct (env.pace id)).floorPnLPct) :
    (p.update env (env.pace id) mark).1.closedAt.isSome ∧
      (tier.update env symbol mark).positions.opened.lookup symbol = none ∧
      (tier.update env symbol mark).positions.closed.lookup symbol = some id := by
  -- the stop is triggered by the mark, and its callback is there
  have hfires : p.fires env (env.pace id) mark = true := by
    unfold Position.fires
    rw [hlive]
    exact Stoploss.triggered_of_floor hfloor
  have hsettles : tier.settlesAt (updateCall env mark) id = true :=
    settlesAt_updateCall.mpr ⟨p, hp, hback, hfires⟩
  have hsym : ∀ id ∈ tier.positions.all symbol, ∀ p, tier.lot id = some p →
      (updateCall env mark id p).1.symbol = symbol := by
    intro id hid p hp
    rw [((lotCall_updateCall env mark id).same p).symbol]
    exact hwf.symbol_of_all hid hp
  -- so the lot is among those of the symbol that settle
  have hpos : (tier.update env symbol mark).positions = tier.positions.remove symbol := by
    unfold update
    rw [foldl_touch_positions (hwf.all_nodup symbol) hsym,
      if_pos (List.any_eq_true.mpr ⟨id, Cache.mem_all.mpr (.inl hid), hsettles⟩)]
  rw [hpos, Cache.lookup_remove_opened, Cache.lookup_remove_closed, if_pos rfl, if_pos rfl, hid,
    (Position.update_of_fires hfires).2.2.1]
  exact ⟨rfl, rfl, Option.some_or⟩

/-- A mark prices and stops every ready sample exactly if it finds them bought. -/
theorem pricesSamples_iff {tier : Tier} (h : tier.Sampled) (event : Event) :
    PricesSamples tier event ↔ SamplesBought tier event := by
  cases event with
  | update env symbol mark =>
    refine forall₅_congr fun id p hid hp hprice => ?_
    have hlot := lot_update_of_opened h.wf hid hp env mark
    have hsample := h.sample id p hp hprice
    obtain ⟨hpnl, hpct, hstop⟩ := Position.update_result env (env.pace id) mark p
    obtain ⟨hpnl', hpct', harmed⟩ := Position.marked_result env mark hprice
    -- the book being ready, a reading is known exactly if the lot was bought
    refine forall_congr' fun hready => ⟨?_, ?_⟩
    · rintro ⟨q, hq, hpriced, hknown, -⟩
      obtain rfl := Option.some.inj (hlot.symm.trans hq)
      rw [hpnl, hpnl'] at hpriced
      rw [hpct, hpct'] at hknown
      exact Position.bought_of_readPnL hready (hsample.readPnL env hpriced) hknown
    · intro hb
      obtain ⟨hpriced, hknown⟩ := Position.readPnL_of_bought hready hb
      refine ⟨_, hlot, ?_, ?_, ?_, fun stop pct hlive hfloor => ?_⟩
      · rwa [hpnl, hpnl']
      · rwa [hpct, hpct']
      · exact hstop (harmed (h.opened symbol id p hid hp hprice) hknown)
      · exact settled_of_floor h.wf hid hp hsample.back hlive hfloor
  | enter env symbol path pathFound => exact Iff.rfl
  | apply env execution => exact Iff.rfl
  | exit env id => exact Iff.rfl
  | unlock paper => exact Iff.rfl
  | clearPending symbol => exact Iff.rfl

/-- Along every run of a virtual tier, which has no transport, its marks price
the samples they find ready exactly when these were bought. -/
theorem virtual_samples_priced_iff (cfg : Cfg) (storedOpen storedClosed : List Position)
    (events : List Event) :
    Along step PricesSamples (new cfg .virtual false storedOpen storedClosed) events ↔
      Along step SamplesBought (new cfg .virtual false storedOpen storedClosed) events := by
  have hstep : ∀ (tier : Tier) (event : Event), tier.Sampled → PricesSamples tier event →
      (tier.step event).Sampled := fun _ event h _ => h.step event
  have hiff : ∀ (tier : Tier) (event : Event), tier.Sampled →
      (PricesSamples tier event ↔ SamplesBought tier event) :=
    fun _ event h => pricesSamples_iff h event
  exact along_iff_of_inv hstep hiff (sampled_new cfg .virtual false storedOpen storedClosed) events

/-- A fresh virtual lot, marked a fifth below its ask. -/
theorem sampleVirtual_unpriced :
    ¬ Along step PricesSamples (new Cfg.defaults .virtual false [] [])
      [.enter (Desk.sampleEnv "v" 1 99) "A/B" "p" true,
        .update (Desk.sampleEnv "v" 2 80) "A/B" (some 80)] := by
  intro h
  have hready : ((runFrom step (new Cfg.defaults .virtual false [] [])
      [.enter (Desk.sampleEnv "v" 1 99) "A/B" "p" true]).lot 0).any (fun p =>
        p.hasPrice && p.symbol == "A/B" && p.quantity == some 2 && p.fills == []) = true := by
    decide +kernel
  have hopened : (runFrom step (new Cfg.defaults .virtual false [] [])
      [.enter (Desk.sampleEnv "v" 1 99) "A/B" "p" true]).positions.opened.lookup "A/B" =
        some 0 := by
    decide +kernel
  have hdepth : depth (offers (Desk.sampleBook 80).bids) = 300 := by decide +kernel
  obtain ⟨p, hp, hfacts⟩ := Option.any_eq_true _ _ |>.mp hready
  simp only [Bool.and_eq_true, beq_iff_eq] at hfacts
  obtain ⟨⟨⟨hprice, hsymbol⟩, hqty⟩, hfills⟩ := hfacts
  have hbought := ((pricesSamples_iff ?_ _).mp h.2.1) 0 p hopened hp hprice
    ⟨Desk.sampleBook 80, 2 / 5, 2, rfl, by decide +kernel, rfl, hqty, by norm_num, by
      rw [hdepth]; norm_num⟩
  · have := hbought.entry
    unfold Position.entryPrice at this
    rw [hfills] at this
    cases this
  · exact (sampled_new Cfg.defaults .virtual false [] []).step _

end Tier

end Symm.Broker
