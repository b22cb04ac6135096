import Symm.Broker.Desk

/-!
# What the tier operations do

One lemma per operation says all that the operation writes; the invariants of
the later modules are derived from these and never unfold the operations
again. `WellFormed` relates the caches and the pending map to the arena: every
address they hold is that of a lot of the right symbol, and no lot is open and
closed at once.

- `touch_frame`, `touch_positions`, `touch_pending`: what one call on one lot writes,
  and the same for a loop over lots (`foldl_touch_frame` and so on);
- `send_cases`, `enter_cases`: what an order can do to the caches;
- `wellFormed_new`, `WellFormed.step`: the invariant, from any store and along any run.

The lemmas hold for any call that a lot can get (`LotCall`), since marks and reports
differ only in what they do to the position.
-/

namespace Symm.Broker

open Symm.System

namespace Tier

/-! ## Writing lots -/

theorem lot_setLot (tier : Tier) (id id' : LotId) (q : Position) :
    (tier.setLot id q).lot id' =
      if id' = id then (tier.lot id).map fun _ => q else tier.lot id' := by
  unfold lot setLot
  rw [List.getElem?_set]
  by_cases h : id' = id
  · subst h
    rw [if_pos rfl, if_pos rfl]
    split
    · rename_i hlt
      rw [List.getElem?_eq_getElem hlt, Option.map_some]
    · rename_i hlt
      rw [List.getElem?_eq_none (not_lt.mp hlt), Option.map_none]
  · rw [if_neg (Ne.symm h), if_neg h]

/-- A lot rewritten without some part of it: that part of every lot stays. -/
theorem part_setLot {α : Type*} (part : Position → α) {tier : Tier} {id : LotId}
    {p q : Position} (hp : tier.lot id = some p) (hq : part q = part p) {id' : LotId}
    {p' : Position} (hp' : tier.lot id' = some p') :
    ∃ q', (tier.setLot id q).lot id' = some q' ∧ part q' = part p' := by
  rw [lot_setLot]
  by_cases heq : id' = id
  · subst heq
    have hpp : p = p' := Option.some.inj (hp.symm.trans hp')
    rw [if_pos rfl, hp, Option.map_some, ← hpp]
    exact ⟨q, rfl, hq⟩
  · rw [if_neg heq]
    exact ⟨p', hp', rfl⟩

theorem lot_lt {tier : Tier} {id : LotId} {p : Position} (h : tier.lot id = some p) :
    id < tier.lots.length :=
  (List.getElem?_eq_some_iff.mp h).1

/-! ## Recalculating -/

theorem winRateOf_nil : winRateOf [] = .finite 0 := if_pos rfl

theorem edgeOf_nil : edgeOf [] = .finite 0 := if_pos rfl

/-- `Recalculate` writes the two statistics and, on a real tier, the lock. -/
theorem recalculate_eq (order : MapOrder) (tier : Tier) : ∃ unlocked, tier.recalculate order =
    { tier with
      winRate := winRateOf (tier.closedReturnsOf (order.visit tier.positions.closedAll))
      edge := edgeOf (tier.closedReturnsOf (order.visit tier.positions.closedAll))
      unlocked := unlocked } := by
  unfold recalculate
  dsimp only
  split
  · rename_i h
    exact ⟨tier.unlocked, by rw [h, winRateOf_nil, edgeOf_nil]⟩
  · split
    · exact ⟨false, rfl⟩
    · exact ⟨tier.unlocked, rfl⟩

/-- The settle callback moves the lot to the closed cache, recomputes the
statistics over the result and queues the lot. -/
theorem settle_eq (order : MapOrder) (tier : Tier) (symbol : String) (id : LotId) : ∃ unlocked,
    tier.settle order symbol id =
      let moved := { tier with positions := tier.positions.remove symbol }
      { moved with
        winRate := winRateOf (moved.closedReturnsOf (order.visit moved.positions.closedAll))
        edge := edgeOf (moved.closedReturnsOf (order.visit moved.positions.closedAll))
        unlocked := unlocked
        pending := tier.pending.insert symbol id } := by
  obtain ⟨unlocked, h⟩ := recalculate_eq order
    { tier with positions := tier.positions.remove symbol }
  exact ⟨unlocked, by unfold settle; dsimp only; rw [h]⟩

/-! ## Touching lots -/

section Touch

variable {order : MapOrder} {call : LotId → Position → Position × Bool}

/-- The call on the lot at `id` runs the settle callback. -/
def settlesAt (call : LotId → Position → Position × Bool) (tier : Tier) (id : LotId) : Bool :=
  (tier.lot id).any fun position => (call id position).2

theorem touch_of_none {tier : Tier} {id : LotId} (h : tier.lot id = none) :
    tier.touch order call id = tier := by
  simp only [touch, h]

theorem touch_of_some {tier : Tier} {id : LotId} {p : Position} (h : tier.lot id = some p) :
    tier.touch order call id = tier.commit order id (call id p) := by
  simp only [touch, h]

theorem settlesAt_of_some {tier : Tier} {id : LotId} {p : Position}
    (h : tier.lot id = some p) : tier.settlesAt call id = (call id p).2 := by
  rw [settlesAt, h, Option.any_some]

theorem settlesAt_iff {tier : Tier} {id : LotId} :
    tier.settlesAt call id = true ↔ ∃ p, tier.lot id = some p ∧ (call id p).2 = true :=
  Option.any_eq_true _ _

/-- A touch without callback only rewrites its lot. -/
theorem touch_of_quiet {tier : Tier} {id : LotId} (h : tier.settlesAt call id = false) :
    ∃ lots, tier.touch order call id = { tier with lots := lots } := by
  cases hl : tier.lot id with
  | none => exact ⟨tier.lots, touch_of_none hl⟩
  | some p =>
    rw [settlesAt_of_some hl] at h
    refine ⟨(tier.setLot id (call id p).1).lots, ?_⟩
    rw [touch_of_some hl, commit, h]
    rfl

/-- A touch with callback rewrites its lot and settles it. -/
theorem touch_of_settles {tier : Tier} {id : LotId} (h : tier.settlesAt call id = true) :
    ∃ p, tier.lot id = some p ∧ (call id p).2 = true ∧
      tier.touch order call id = (tier.setLot id (call id p).1).settle order (call id p).1.symbol id := by
  cases hl : tier.lot id with
  | none => simp [settlesAt, hl] at h
  | some p =>
    rw [settlesAt_of_some hl] at h
    refine ⟨p, rfl, h, ?_⟩
    rw [touch_of_some hl, commit, h]
    rfl

/-- Settling moves addresses and touches no lot. -/
theorem lots_settle (tier : Tier) (symbol : String) (id : LotId) :
    (tier.settle order symbol id).lots = tier.lots := by
  obtain ⟨_, hs⟩ := settle_eq order tier symbol id
  rw [hs]

theorem lots_commit (tier : Tier) (id : LotId) (result : Position × Bool) :
    (tier.commit order id result).lots = (tier.setLot id result.1).lots := by
  unfold commit
  dsimp only
  split
  · exact lots_settle _ _ _
  · rfl

/-- Only the touched lot changes. -/
theorem lot_touch (tier : Tier) (id id' : LotId) :
    (tier.touch order call id).lot id' =
      if id' = id then (tier.lot id).map fun p => (call id p).1 else tier.lot id' := by
  cases hl : tier.lot id with
  | none =>
    rw [touch_of_none hl]
    by_cases h : id' = id
    · rw [if_pos h, h, hl, Option.map_none]
    · rw [if_neg h]
  | some p =>
    have hlots : (tier.commit order id (call id p)).lot id' = (tier.setLot id (call id p).1).lot id' := by
      rw [lot, lots_commit]
      rfl
    rw [touch_of_some hl, hlots, lot_setLot, hl, Option.map_some, Option.map_some]

/-- A touch neither writes to the transport nor changes which tier this is. -/
theorem touch_frame (tier : Tier) (id : LotId) :
    (tier.touch order call id).sent = tier.sent ∧
      (tier.touch order call id).hasTransport = tier.hasTransport ∧
      (tier.touch order call id).tierType = tier.tierType := by
  cases h : tier.settlesAt call id with
  | false =>
    obtain ⟨lots, he⟩ := touch_of_quiet h
    rw [he]
    exact ⟨rfl, rfl, rfl⟩
  | true =>
    obtain ⟨p, -, -, he⟩ := touch_of_settles h
    obtain ⟨_, hs⟩ := settle_eq order (tier.setLot id (call id p).1) (call id p).1.symbol id
    rw [he, hs]
    exact ⟨rfl, rfl, rfl⟩

/-- A call moves its lot to the closed cache where it settles. -/
theorem touch_positions {tier : Tier} {id : LotId} {symbol : String}
    (hsym : ∀ p, tier.lot id = some p → (call id p).1.symbol = symbol) :
    (tier.touch order call id).positions =
      if tier.settlesAt call id then tier.positions.remove symbol else tier.positions := by
  cases h : tier.settlesAt call id with
  | false =>
    obtain ⟨lots, he⟩ := touch_of_quiet h
    rw [he]
    rfl
  | true =>
    obtain ⟨p, hp, -, he⟩ := touch_of_settles h
    obtain ⟨_, hs⟩ := settle_eq order (tier.setLot id (call id p).1) (call id p).1.symbol id
    rw [he, hs, hsym p hp]
    rfl

/-- And puts it among the pending ones. -/
theorem touch_pending {tier : Tier} {id : LotId} {symbol : String}
    (hsym : ∀ p, tier.lot id = some p → (call id p).1.symbol = symbol) :
    (tier.touch order call id).pending =
      if tier.settlesAt call id then tier.pending.insert symbol id else tier.pending := by
  cases h : tier.settlesAt call id with
  | false =>
    obtain ⟨lots, he⟩ := touch_of_quiet h
    rw [he]
    rfl
  | true =>
    obtain ⟨p, hp, -, he⟩ := touch_of_settles h
    obtain ⟨_, hs⟩ := settle_eq order (tier.setLot id (call id p).1) (call id p).1.symbol id
    rw [he, hs, hsym p hp]
    rfl

/-- What a touch elsewhere does not change about a lot. -/
theorem settlesAt_touch_other (tier : Tier) {id id' : LotId} (h : id' ≠ id) :
    (tier.touch order call id).settlesAt call id' = tier.settlesAt call id' := by
  unfold settlesAt
  rw [lot_touch, if_neg h]

/-- A fold of touches rewrites each listed lot once. -/
theorem lot_foldl_touch {ids : List LotId} (hnd : ids.Nodup) (tier : Tier) (id : LotId) :
    (ids.foldl (touch order call) tier).lot id =
      if id ∈ ids then (tier.lot id).map fun p => (call id p).1 else tier.lot id := by
  induction ids generalizing tier with
  | nil => simp
  | cons x xs ih =>
    obtain ⟨hx, hxs⟩ := List.nodup_cons.mp hnd
    rw [List.foldl_cons, ih hxs, lot_touch]
    by_cases h : id = x
    · subst h
      rw [if_neg hx, if_pos rfl, if_pos List.mem_cons_self]
    · rw [if_neg h]
      simp only [List.mem_cons, h, false_or]

/-- A mark reaches the lots of its symbol. -/
theorem lot_update {tier : Tier} {symbol : String} (hnd : (tier.positions.all symbol).Nodup)
    (env : Env) (mark : Option Decimal) (id : LotId) :
    (tier.update env symbol mark).lot id =
      if id ∈ tier.positions.all symbol then
        (tier.lot id).map fun p => (p.update env (env.pace id) mark).1
      else tier.lot id :=
  lot_foldl_touch hnd tier id

/-- No call sends an order or changes the transport. -/
theorem foldl_touch_frame (ids : List LotId) (tier : Tier) :
    (ids.foldl (touch order call) tier).sent = tier.sent ∧
      (ids.foldl (touch order call) tier).hasTransport = tier.hasTransport ∧
      (ids.foldl (touch order call) tier).tierType = tier.tierType := by
  induction ids generalizing tier with
  | nil => exact ⟨rfl, rfl, rfl⟩
  | cons x xs ih =>
    obtain ⟨h₁, h₂, h₃⟩ := ih (tier.touch order call x)
    obtain ⟨g₁, g₂, g₃⟩ := @touch_frame order call tier x
    exact ⟨h₁.trans g₁, h₂.trans g₂, h₃.trans g₃⟩

/-- If no listed lot settles, the fold only rewrites lots. -/
theorem foldl_touch_of_quiet {ids : List LotId} (hnd : ids.Nodup) {tier : Tier}
    (h : ∀ id ∈ ids, tier.settlesAt call id = false) :
    ∃ lots, ids.foldl (touch order call) tier = { tier with lots := lots } := by
  induction ids generalizing tier with
  | nil => exact ⟨tier.lots, rfl⟩
  | cons x xs ih =>
    obtain ⟨hx, hxs⟩ := List.nodup_cons.mp hnd
    obtain ⟨lots, he⟩ := touch_of_quiet (h x List.mem_cons_self)
    have hrest : ∀ id ∈ xs, (tier.touch order call x).settlesAt call id = false := by
      intro id hid
      have hne : id ≠ x := fun heq => hx (heq ▸ hid)
      rw [settlesAt_touch_other tier hne]
      exact h id (List.mem_cons_of_mem x hid)
    obtain ⟨lots', he'⟩ := ih hxs hrest
    exact ⟨lots', by rw [List.foldl_cons, he', he]⟩

/-- The caches after a fold over lots of one symbol: they move once, if any of
the lots settles. -/
theorem foldl_touch_positions {ids : List LotId} (hnd : ids.Nodup) {tier : Tier}
    {symbol : String}
    (hsym : ∀ id ∈ ids, ∀ p, tier.lot id = some p → (call id p).1.symbol = symbol) :
    (ids.foldl (touch order call) tier).positions =
      if ids.any (tier.settlesAt call) then tier.positions.remove symbol
      else tier.positions := by
  induction ids generalizing tier with
  | nil => rfl
  | cons x xs ih =>
    obtain ⟨hx, hxs⟩ := List.nodup_cons.mp hnd
    have hne : ∀ id ∈ xs, id ≠ x := fun id hid heq => hx (heq ▸ hid)
    have hrest : ∀ id ∈ xs, ∀ p, (tier.touch order call x).lot id = some p →
        (call id p).1.symbol = symbol := by
      intro id hid p hp
      rw [lot_touch, if_neg (hne id hid)] at hp
      exact hsym id (List.mem_cons_of_mem x hid) p hp
    have hany : xs.any ((tier.touch order call x).settlesAt call) = xs.any (tier.settlesAt call) := by
      rw [Bool.eq_iff_iff, List.any_eq_true, List.any_eq_true]
      refine exists_congr fun id => and_congr_right fun hid => ?_
      rw [settlesAt_touch_other tier (hne id hid)]
    rw [List.foldl_cons, ih hxs hrest, hany, touch_positions (hsym x List.mem_cons_self),
      List.any_cons]
    cases tier.settlesAt call x <;> cases xs.any (tier.settlesAt call) <;> simp

/-- The queue after a fold over lots of one symbol of which at most one, `lot`,
settles. -/
theorem foldl_touch_pending {ids : List LotId} (hnd : ids.Nodup) {tier : Tier}
    {symbol : String} {lot : LotId}
    (hsym : ∀ id ∈ ids, ∀ p, tier.lot id = some p → (call id p).1.symbol = symbol)
    (hone : ∀ id ∈ ids, tier.settlesAt call id = true → id = lot) :
    (ids.foldl (touch order call) tier).pending =
      if ids.any (tier.settlesAt call) then tier.pending.insert symbol lot
      else tier.pending := by
  induction ids generalizing tier with
  | nil => rfl
  | cons x xs ih =>
    obtain ⟨hx, hxs⟩ := List.nodup_cons.mp hnd
    have hne : ∀ id ∈ xs, id ≠ x := fun id hid heq => hx (heq ▸ hid)
    cases hs : tier.settlesAt call x with
    | true =>
      -- the others are quiet, since `x` is the one that settles
      have hquiet : ∀ id ∈ xs, (tier.touch order call x).settlesAt call id = false := by
        intro id hid
        rw [settlesAt_touch_other tier (hne id hid)]
        by_contra h
        refine hne id hid ?_
        rw [hone id (List.mem_cons_of_mem x hid) (Bool.eq_true_of_not_eq_false h),
          hone x List.mem_cons_self hs]
      obtain ⟨lots, he⟩ := foldl_touch_of_quiet hxs hquiet
      rw [List.foldl_cons, he, List.any_cons, hs, Bool.true_or, if_pos rfl,
        ← hone x List.mem_cons_self hs]
      show (tier.touch order call x).pending = _
      rw [touch_pending (hsym x List.mem_cons_self), hs, if_pos rfl]
    | false =>
      obtain ⟨lots, he⟩ := touch_of_quiet hs
      have hrest : ∀ id ∈ xs, ∀ p, (tier.touch order call x).lot id = some p →
          (call id p).1.symbol = symbol := by
        intro id hid p hp
        rw [lot_touch, if_neg (hne id hid)] at hp
        exact hsym id (List.mem_cons_of_mem x hid) p hp
      have hsame : ∀ id ∈ xs,
          (tier.touch order call x).settlesAt call id = tier.settlesAt call id :=
        fun id hid => settlesAt_touch_other tier (hne id hid)
      have hany : xs.any ((tier.touch order call x).settlesAt call) = xs.any (tier.settlesAt call) := by
        rw [Bool.eq_iff_iff, List.any_eq_true, List.any_eq_true]
        exact exists_congr fun id => and_congr_right fun hid => by rw [hsame id hid]
      rw [List.foldl_cons, ih hxs hrest, hany, List.any_cons, hs, Bool.false_or, he]
      intro id hid h
      rw [hsame id hid] at h
      exact hone id (List.mem_cons_of_mem x hid) h

end Touch

/-- A stop that calls its tier back fires at this mark. -/
def StopsOut (env : Env) (mark : Option Decimal) (tier : Tier) (id : LotId) : Prop :=
  ∃ p, tier.lot id = some p ∧ p.hasOnSettled = true ∧ p.fires env (env.pace id) mark = true

/-- A stop that calls its tier back fires on this report. -/
def StopsOutOn (env : Env) (execution : ExecutionData) (tier : Tier) (id : LotId) : Prop :=
  ∃ p, tier.lot id = some p ∧ p.hasOnSettled = true ∧
    p.firesOn env (env.pace id) execution = true

/-- At a mark a lot settles if it is stopped out. -/
theorem settlesAt_updateCall {env : Env} {mark : Option Decimal} {tier : Tier} {id : LotId} :
    tier.settlesAt (updateCall env mark) id = true ↔ tier.StopsOut env mark id := by
  unfold settlesAt StopsOut updateCall
  rw [Option.any_eq_true]
  refine exists_congr fun p => and_congr_right fun _ => ?_
  rw [Position.update_settles, Bool.and_eq_true, and_comm]

/-- At a report a lot settles if the report stops it out. -/
theorem settlesAt_applyCall {env : Env} {execution : ExecutionData} {tier : Tier} {id : LotId} :
    tier.settlesAt (applyCall env execution) id = true ↔ tier.StopsOutOn env execution id := by
  unfold settlesAt StopsOutOn applyCall
  rw [Option.any_eq_true]
  refine exists_congr fun p => and_congr_right fun _ => ?_
  rw [Position.apply_settles, Bool.and_eq_true, and_comm]

theorem lotCall_updateCall (env : Env) (mark : Option Decimal) (id : LotId) :
    Position.LotCall (updateCall env mark id) :=
  Position.lotCall_update env (env.pace id) mark

theorem lotCall_applyCall (env : Env) (execution : ExecutionData) (id : LotId) :
    Position.LotCall (applyCall env execution id) :=
  Position.lotCall_apply env (env.pace id) execution

/-- Only a firing stop closes a lot at a mark. -/
theorem fires_of_closes {env : Env} {mark : Option Decimal} {id : LotId} {p : Position}
    (hopen : p.closedAt = none) (hclosed : (updateCall env mark id p).1.closedAt.isSome) :
    p.fires env (env.pace id) mark = true := by
  by_contra hf
  rw [updateCall, (Position.update_of_quiet (Bool.eq_false_of_not_eq_true hf)).2, hopen] at hclosed
  cases hclosed

/-- Only a firing stop closes a lot on a report. -/
theorem firesOn_of_closes {env : Env} {execution : ExecutionData} {id : LotId} {p : Position}
    (hopen : p.closedAt = none) (hclosed : (applyCall env execution id p).1.closedAt.isSome) :
    p.firesOn env (env.pace id) execution = true := by
  by_contra hf
  rw [applyCall,
    (Position.apply_of_quiet (Bool.eq_false_of_not_eq_true hf)).2.mpr hopen] at hclosed
  cases hclosed

/-! ## Sending, entering, exiting -/

/-- `Send` does nothing, drops the symbol after a failed write, or appends one
message to the log. -/
theorem send_cases (env : Env) (p : Position) (action : SendAction) (tier : Tier) :
    ((tier.hasTransport = false ∨ action.order p = none) ∧ tier.send env p action = (tier, none)) ∨
    ((env.marshalOk = false ∨ env.writeOk = false) ∧
      (tier.send env p action).1 = { tier with positions := tier.positions.drop p.symbol }) ∨
    (∃ order, action.order p = some order ∧
      tier.send env p action =
        ({ tier with sent := tier.sent ++ [AddOrder.of p order] }, none)) := by
  unfold send
  cases ht : tier.hasTransport with
  | false => exact .inl ⟨.inl rfl, rfl⟩
  | true =>
    cases ho : action.order p with
    | none => exact .inl ⟨.inr rfl, rfl⟩
    | some order =>
      refine .inr ?_
      cases hm : env.marshalOk with
      | false => exact .inl ⟨.inl rfl, rfl⟩
      | true =>
        cases hw : env.writeOk with
        | false => exact .inl ⟨.inr rfl, rfl⟩
        | true => exact .inr ⟨order, rfl, rfl⟩

/-- A transport that writes takes the order of the lot. -/
theorem send_of_writes {env : Env} {tier : Tier} (ht : tier.hasTransport = true)
    (hm : env.marshalOk = true) (hw : env.writeOk = true) (p : Position) (action : SendAction) :
    tier.send env p action =
      ({ tier with sent := tier.sent ++ ((action.order p).map (AddOrder.of p)).toList }, none) := by
  rcases send_cases env p action tier with ⟨hno, he⟩ | ⟨hfail, -⟩ | ⟨order, ho, he⟩
  · have ho : action.order p = none := by simpa [ht] using hno
    rw [he, ho, Option.map_none, Option.toList_none, List.append_nil]
  · simp [hm, hw] at hfail
  · rw [he, ho, Option.map_some, Option.toList_some]

/-- What `Send` never touches. -/
theorem send_frame (env : Env) (p : Position) (action : SendAction) (tier : Tier) :
    (tier.send env p action).1.lots = tier.lots ∧
      (tier.send env p action).1.pending = tier.pending ∧
      (tier.send env p action).1.winRate = tier.winRate ∧
      (tier.send env p action).1.edge = tier.edge ∧
      (tier.send env p action).1.tierType = tier.tierType ∧
      (tier.send env p action).1.hasTransport = tier.hasTransport := by
  rcases send_cases env p action tier with ⟨-, h⟩ | ⟨-, h⟩ | ⟨_, -, h⟩ <;>
    rw [h] <;> exact ⟨rfl, rfl, rfl, rfl, rfl, rfl⟩

/-- A lot as `NewPosition` and `Position.Enter` leave it. -/
structure Opened (p : Position) (tierKey symbol path : String) (vol : Decimal) : Prop where
  symbol : p.symbol = symbol
  book : p.book = tierKey
  entryPath : p.entryPath = path
  exitPath : p.exitPath = ""
  hasPrice : p.hasPrice = true
  hasOnSettled : p.hasOnSettled = true
  closedAt : p.closedAt = none
  pnl : p.pnl = none
  pnlPct : p.pnlPct = none
  pos : 0 < vol
  buys : p.entryOrder.map (fun o => (o.side, o.volume)) = some ("buy", some vol)
  sells : p.exitOrder.map (fun o => (o.side, o.volume)) = some ("sell", some vol)

/-- A positive size is entered as it is. -/
theorem enter_sized (env : Env) (symbol tierKey id : String) {path : String} {vol : Decimal}
    (hpath : path ≠ "") (hpos : 0 < vol) :
    ∃ p, (Position.new symbol tierKey path id).enter env path (some vol) none = .ok p ∧
      Opened p tierKey symbol path vol := by
  have hvol : (some vol).filter (0 < ·) = some vol := by simp [Option.filter, hpos]
  unfold Position.enter
  rw [if_neg hpath, hvol]
  exact ⟨_, rfl, ⟨rfl, rfl, rfl, rfl, rfl, rfl, rfl, rfl, rfl, hpos, rfl, rfl⟩⟩

/-- A size is given on a free symbol, by an unlocked tier, and is positive. -/
theorem entryQty_free {env : Env} {symbol : String} {tier : Tier} {qty : Decimal}
    (h : tier.entryQty env symbol = .ok qty) :
    tier.positions.has symbol = false ∧ 0 < qty ∧ tier.unlocked = true := by
  unfold entryQty at h
  split at h
  · cases h
  · rename_i hu
    cases hg : tier.physicalGate env symbol with
    | error err => rw [hg] at h; cases h
    | ok _ =>
      rw [hg] at h
      change tier.sizeFree env symbol = .ok qty at h
      unfold sizeFree at h
      split at h
      · cases h
      · rename_i hfree
        refine ⟨by simpa using hfree, ?_, not_not.mp hu⟩
        split at h
        · cases h
        · cases h
        · split at h
          · cases h
          · rename_i hpos
            cases h
            exact not_le.mp hpos

/-- `Enter` refuses and changes nothing, or appends an opened lot to the arena,
adds it to the cache and sends its buy. -/
theorem enter_cases (env : Env) (symbol path : String) (pathFound : Bool) (tier : Tier) :
    ((path = "" ∨ ∀ vol, tier.entryQty env symbol ≠ .ok vol) ∧
      (tier.enter env symbol path pathFound).1 = tier ∧
      (tier.enter env symbol path pathFound).2 ≠ none) ∨
    ∃ p vol, tier.entryQty env symbol = .ok vol ∧ path ≠ "" ∧
      Opened p tier.tierType.string symbol path vol ∧
      tier.enter env symbol path pathFound = (tier.addLot symbol p).send env p .enter := by
  unfold enter
  cases hq : tier.entryQty env symbol with
  | error err =>
    refine .inl ⟨.inr fun vol h => ?_, rfl, by simp⟩
    cases h
  | ok qty =>
    obtain ⟨-, hpos, -⟩ := entryQty_free hq
    by_cases hpath : path = ""
    · refine .inl ⟨.inl hpath, ?_⟩
      simp [Position.enter, hpath]
    · obtain ⟨p, hp, hopened⟩ :=
        enter_sized env symbol tier.tierType.string (env.uuid 0) hpath hpos
      refine .inr ⟨p, qty, rfl, hpath, hopened, ?_⟩
      simp only [hp]

/-! ## Well-formed tiers -/

/-- The addresses in a map of lots are those of lots of the right symbol. -/
def Points (tier : Tier) (map : LotMap) : Prop :=
  ∀ symbol id, map.lookup symbol = some id → ∃ p, tier.lot id = some p ∧ p.symbol = symbol

/-- What the caches and the pending map of a tier always satisfy. -/
structure WellFormed (tier : Tier) : Prop where
  opened : tier.Points tier.positions.opened
  closed : tier.Points tier.positions.closed
  pending : tier.Points tier.pending
  apart : ∀ symbol id, tier.positions.opened.lookup symbol = some id →
    tier.positions.closed.lookup symbol ≠ some id

/-- The open and the closed lot of a symbol are two. -/
theorem WellFormed.all_nodup {tier : Tier} (h : tier.WellFormed) (symbol : String) :
    (tier.positions.all symbol).Nodup := by
  unfold Cache.all Cache.openOf Cache.closedOf
  cases ho : tier.positions.opened.lookup symbol with
  | none =>
    cases hc : tier.positions.closed.lookup symbol with
    | none => simp
    | some c => simp
  | some o =>
    cases hc : tier.positions.closed.lookup symbol with
    | none => simp
    | some c =>
      have hne : o ≠ c := fun heq => h.apart symbol o ho (heq ▸ hc)
      simp [hne]

theorem openOf_nodup (cache : Cache) (symbol : String) : (cache.openOf symbol).Nodup := by
  unfold Cache.openOf
  cases cache.opened.lookup symbol <;> simp

/-- The lots of a symbol have that symbol. -/
theorem WellFormed.symbol_of_all {tier : Tier} (h : tier.WellFormed) {symbol : String}
    {id : LotId} (hid : id ∈ tier.positions.all symbol) {p : Position}
    (hp : tier.lot id = some p) : p.symbol = symbol := by
  rcases Cache.mem_all.mp hid with ho | hc
  · obtain ⟨q, hq, hs⟩ := h.opened symbol id ho
    rwa [Option.some.inj (hp.symm.trans hq)]
  · obtain ⟨q, hq, hs⟩ := h.closed symbol id hc
    rwa [Option.some.inj (hp.symm.trans hq)]

theorem mem_openOf {cache : Cache} {symbol : String} {id : LotId} :
    id ∈ cache.openOf symbol ↔ cache.opened.lookup symbol = some id := by
  simp [Cache.openOf]

theorem mem_all_of_openOf {cache : Cache} {symbol : String} {id : LotId}
    (h : id ∈ cache.openOf symbol) : id ∈ cache.all symbol :=
  Cache.mem_all.mpr (.inl (mem_openOf.mp h))

/-- Distinct symbols hold distinct lots. -/
theorem Points.inj {tier : Tier} {m m' : LotMap} (h : tier.Points m) (h' : tier.Points m')
    {s s' : String} {id : LotId} (hs : m.lookup s = some id) (hs' : m'.lookup s' = some id) :
    s = s' := by
  obtain ⟨p, hp, rfl⟩ := h s id hs
  obtain ⟨q, hq, rfl⟩ := h' s' id hs'
  rw [Option.some.inj (hp.symm.trans hq)]

/-- Addresses stay valid while lots keep their symbols. -/
theorem Points.mono {tier tier' : Tier} {m m' : LotMap} (h : tier.Points m)
    (hlots : ∀ id p, tier.lot id = some p → ∃ q, tier'.lot id = some q ∧ q.symbol = p.symbol)
    (hm : ∀ s id, m'.lookup s = some id → m.lookup s = some id) : tier'.Points m' := by
  intro s id hs
  obtain ⟨p, hp, hsym⟩ := h s id (hm s id hs)
  obtain ⟨q, hq, hqs⟩ := hlots id p hp
  exact ⟨q, hq, hqs.trans hsym⟩

/-- Moving the open lot of a symbol keeps the caches well formed. -/
theorem WellFormed.remove {tier : Tier} (h : tier.WellFormed) (symbol : String) :
    ({ tier with positions := tier.positions.remove symbol } : Tier).WellFormed where
  opened := by
    intro s id hs
    rw [Cache.lookup_remove_opened] at hs
    split at hs
    · cases hs
    · exact h.opened s id hs
  closed := by
    intro s id hs
    rw [Cache.lookup_remove_closed] at hs
    split at hs
    · rename_i heq
      subst heq
      rcases Option.or_eq_some_iff.mp hs with ho | ⟨-, hc⟩
      · exact h.opened s id ho
      · exact h.closed s id hc
    · exact h.closed s id hs
  pending := h.pending
  apart := by
    intro s id hs
    rw [Cache.lookup_remove_opened] at hs
    rw [Cache.lookup_remove_closed]
    split at hs
    · cases hs
    · rename_i hne
      rw [if_neg hne]
      exact h.apart s id hs

/-- So does dropping the symbol from both. -/
theorem WellFormed.drop {tier : Tier} (h : tier.WellFormed) (symbol : String) :
    ({ tier with positions := tier.positions.drop symbol } : Tier).WellFormed where
  opened := h.opened.mono (fun _ p hp => ⟨p, hp, rfl⟩) fun s id hs => by
    by_cases heq : s = symbol
    · rw [heq, Cache.drop, AList.lookup_erase] at hs; cases hs
    · rwa [Cache.drop, AList.lookup_erase_ne heq] at hs
  closed := h.closed.mono (fun _ p hp => ⟨p, hp, rfl⟩) fun s id hs => by
    by_cases heq : s = symbol
    · rw [heq, Cache.drop, AList.lookup_erase] at hs; cases hs
    · rwa [Cache.drop, AList.lookup_erase_ne heq] at hs
  pending := h.pending
  apart := by
    intro s id hs
    by_cases heq : s = symbol
    · rw [heq, Cache.drop, AList.lookup_erase] at hs; cases hs
    · rw [Cache.drop, AList.lookup_erase_ne heq] at hs
      rw [Cache.drop, AList.lookup_erase_ne heq]
      exact h.apart s id hs

theorem WellFormed.send {tier : Tier} (h : tier.WellFormed) (env : Env) (p : Position)
    (action : SendAction) : (tier.send env p action).1.WellFormed := by
  rcases send_cases env p action tier with ⟨-, he⟩ | ⟨-, he⟩ | ⟨_, -, he⟩ <;> rw [he]
  · exact h
  · exact h.drop p.symbol
  · exact ⟨h.opened, h.closed, h.pending, h.apart⟩

/-- A tier that only rewrote its lots, keeping their symbols. -/
theorem WellFormed.rewrite {tier tier' : Tier} (h : tier.WellFormed)
    (hlots : ∀ id p, tier.lot id = some p → ∃ q, tier'.lot id = some q ∧ q.symbol = p.symbol)
    (hpos : tier'.positions = tier.positions) (hpend : tier'.pending = tier.pending) :
    tier'.WellFormed where
  opened := h.opened.mono hlots fun s id hs => by rwa [hpos] at hs
  closed := h.closed.mono hlots fun s id hs => by rwa [hpos] at hs
  pending := h.pending.mono hlots fun s id hs => by rwa [hpend] at hs
  apart := by rw [hpos]; exact h.apart

section

variable {order : MapOrder} {call : LotId → Position → Position × Bool}
  (hcall : ∀ id, Position.LotCall (call id))
include hcall

/-- Touches rewrite fills, prices and stops, never what names a lot. -/
theorem sameLot_touch {tier : Tier} {id id' : LotId} {p : Position}
    (hp : tier.lot id' = some p) :
    ∃ q, (tier.touch order call id).lot id' = some q ∧ Position.SameLot p q := by
  rw [lot_touch]
  split
  · rename_i heq
    subst heq
    rw [hp]
    exact ⟨_, rfl, (hcall id').same p⟩
  · exact ⟨p, hp, Position.SameLot.refl p⟩

/-- A loop over lots loses none, and changes nothing of what a lot is. -/
theorem sameLot_foldl_touch (ids : List LotId) {tier : Tier} {id : LotId} {p : Position}
    (hp : tier.lot id = some p) :
    ∃ q, (ids.foldl (Tier.touch order call) tier).lot id = some q ∧ Position.SameLot p q := by
  induction ids generalizing tier p with
  | nil => exact ⟨p, hp, Position.SameLot.refl p⟩
  | cons x xs ih =>
    obtain ⟨q, hq, hpq⟩ := @sameLot_touch order call hcall tier x id p hp
    obtain ⟨r, hr, hqr⟩ := ih hq
    exact ⟨r, hr, hpq.trans hqr⟩

/-- Where a lot there is after a fold of touches comes from. -/
theorem lot_of_foldl_touch {ids : List LotId} (hnd : ids.Nodup) {tier : Tier} {id : LotId}
    {q : Position} (hq : (ids.foldl (Tier.touch order call) tier).lot id = some q) :
    ∃ p, tier.lot id = some p ∧ Position.SameLot p q ∧
      (p.closedAt.isSome → q.closedAt.isSome) := by
  rw [lot_foldl_touch hnd] at hq
  split at hq
  · obtain ⟨p, hp, rfl⟩ := Option.map_eq_some_iff.mp hq
    exact ⟨p, hp, (hcall id).same p, fun h => ((hcall id).stays p h).1⟩
  · exact ⟨q, hq, Position.SameLot.refl q, fun h => h⟩

/-- A call on a lot keeps the tier well formed. -/
theorem WellFormed.touch {tier : Tier} (h : tier.WellFormed) (id : LotId) :
    (tier.touch order call id).WellFormed := by
  cases hs : tier.settlesAt call id with
  | false =>
    obtain ⟨lots, he⟩ := touch_of_quiet hs
    refine h.rewrite (fun id' p hp => ?_) (by rw [he]) (by rw [he])
    obtain ⟨q, hq, hpq⟩ := @sameLot_touch order call hcall tier id id' p hp
    exact ⟨q, hq, hpq.symbol⟩
  | true =>
    obtain ⟨p, hp, -, he⟩ := touch_of_settles hs
    obtain ⟨_, hse⟩ := settle_eq order (tier.setLot id (call id p).1) (call id p).1.symbol id
    have hset : (tier.setLot id (call id p).1).WellFormed :=
      h.rewrite (fun _ _ hp' => part_setLot Position.symbol hp ((hcall id).same p).symbol hp')
        rfl rfl
    have hrem := hset.remove (call id p).1.symbol
    rw [he, hse]
    refine ⟨hrem.opened, hrem.closed, ?_, hrem.apart⟩
    -- the callback queues the lot under the symbol it has
    intro s id' hs'
    by_cases heq : s = (call id p).1.symbol
    · rw [heq, AList.lookup_insert] at hs'
      cases hs'
      refine ⟨(call id p).1, ?_, heq.symm⟩
      show (tier.setLot id (call id p).1).lot id = _
      rw [lot_setLot, if_pos rfl, hp, Option.map_some]
    · rw [AList.lookup_insert_ne heq] at hs'
      exact hrem.pending s id' hs'

theorem WellFormed.foldl_touch {tier : Tier} (h : tier.WellFormed) (ids : List LotId) :
    (ids.foldl (Tier.touch order call) tier).WellFormed := by
  induction ids generalizing tier with
  | nil => exact h
  | cons x xs ih => exact ih (h.touch hcall x)

end

/-- Appending a lot leaves the others at their addresses. -/
theorem lot_addLot (tier : Tier) (symbol : String) (p : Position) :
    (tier.addLot symbol p).lot tier.lots.length = some p ∧
      ∀ id q, tier.lot id = some q → (tier.addLot symbol p).lot id = some q := by
  constructor
  · exact List.getElem?_concat_length
  · intro id q hq
    rw [lot, addLot, List.getElem?_append_left (lot_lt hq)]
    exact hq

/-- After a lot was added there are the earlier ones and it. -/
theorem lot_of_addLot {tier : Tier} {symbol : String} {p q : Position} {id : LotId}
    (h : (tier.addLot symbol p).lot id = some q) :
    tier.lot id = some q ∨ (id = tier.lots.length ∧ q = p) := by
  by_cases hlt : id < tier.lots.length
  · rw [lot, addLot, List.getElem?_append_left hlt] at h
    exact .inl h
  · have hlen := lot_lt h
    rw [addLot, List.length_append, List.length_singleton] at hlen
    have hid : id = tier.lots.length := Nat.le_antisymm (Nat.lt_succ_iff.mp hlen) (not_lt.mp hlt)
    rw [hid, (lot_addLot tier symbol p).1] at h
    exact .inr ⟨hid, (Option.some.inj h).symm⟩

/-- A lot there is after entering was there before or is as entering leaves it. -/
theorem lot_of_enter {tier : Tier} {env : Env} {symbol path : String} {pathFound : Bool}
    {id : LotId} {q : Position} (h : (tier.enter env symbol path pathFound).1.lot id = some q) :
    tier.lot id = some q ∨ (q.exitPath = "" ∧ q.closedAt = none) := by
  rcases enter_cases env symbol path pathFound tier with ⟨-, he, -⟩ | ⟨p, vol, -, -, hp, he⟩
  · rw [he] at h
    exact .inl h
  · rw [he, lot, (send_frame env p .enter _).1] at h
    rcases lot_of_addLot h with hold | ⟨-, rfl⟩
    · exact .inl hold
    · exact .inr ⟨hp.exitPath, hp.closedAt⟩

/-- Entering queues nothing and closes nothing. -/
theorem enter_maps (tier : Tier) (env : Env) (symbol path : String) (pathFound : Bool) :
    (tier.enter env symbol path pathFound).1.pending = tier.pending ∧
      ∀ s id, (tier.enter env symbol path pathFound).1.positions.closed.lookup s = some id →
        tier.positions.closed.lookup s = some id := by
  rcases enter_cases env symbol path pathFound tier with ⟨-, he, -⟩ | ⟨p, vol, -, -, hp, he⟩
  · rw [he]
    exact ⟨rfl, fun _ _ h => h⟩
  · rw [he]
    refine ⟨(send_frame env p .enter _).2.1, fun s id hs => ?_⟩
    rcases send_cases env p .enter (tier.addLot symbol p) with ⟨-, h⟩ | ⟨-, h⟩ | ⟨_, -, h⟩
    · rwa [h, addLot, Cache.add_closed] at hs
    · rw [h, Cache.drop] at hs
      by_cases heq : s = p.symbol
      · rw [heq, AList.lookup_erase] at hs
        cases hs
      · rwa [AList.lookup_erase_ne heq, addLot, Cache.add_closed] at hs
    · rwa [h, addLot, Cache.add_closed] at hs

/-- Entering keeps every lot there is. -/
theorem lot_enter {tier : Tier} {id : LotId} {q : Position} (hq : tier.lot id = some q)
    (env : Env) (symbol path : String) (pathFound : Bool) :
    (tier.enter env symbol path pathFound).1.lot id = some q := by
  rcases enter_cases env symbol path pathFound tier with ⟨-, he, -⟩ | ⟨p, vol, -, -, -, he⟩
  · rw [he, hq]
  · rw [he, lot, (send_frame env p .enter _).1]
    exact (lot_addLot tier symbol p).2 id q hq

/-- Entering a symbol moves no open lot of another one. -/
theorem lookup_enter_other {s symbol : String} (hs : s ≠ symbol) (tier : Tier) (env : Env)
    (path : String) (pathFound : Bool) :
    (tier.enter env s path pathFound).1.positions.opened.lookup symbol =
      tier.positions.opened.lookup symbol := by
  rcases enter_cases env s path pathFound tier with ⟨-, he, -⟩ | ⟨p, vol, -, -, hp, he⟩
  · rw [he]
  · have hadd : (tier.addLot s p).positions.opened.lookup symbol =
        tier.positions.opened.lookup symbol := by
      unfold addLot Cache.add
      dsimp only
      split
      · rfl
      · exact AList.lookup_insert_ne hs.symm
    rw [he]
    rcases send_cases env p .enter (tier.addLot s p) with
      ⟨-, hsend⟩ | ⟨-, hsend⟩ | ⟨_, -, hsend⟩
    · rw [hsend, hadd]
    · have hne : symbol ≠ p.symbol := by
        rw [hp.symbol]
        exact hs.symm
      rw [hsend]
      exact (AList.lookup_erase_ne hne).trans hadd
    · rw [hsend]
      exact hadd

/-- A new lot stands at an address of its own. -/
theorem WellFormed.addLot {tier : Tier} (h : tier.WellFormed) (p : Position) :
    (tier.addLot p.symbol p).WellFormed := by
  obtain ⟨hnew, hold⟩ := lot_addLot tier p.symbol p
  have hkeep := fun id q (hq : tier.lot id = some q) =>
    (⟨q, hold id q hq, rfl⟩ : ∃ r, _ = some r ∧ r.symbol = q.symbol)
  refine ⟨?_, ?_, h.pending.mono hkeep fun _ _ hs => hs, ?_⟩
  · intro s id hs
    rcases Cache.lookup_add hs with ho | ⟨rfl, rfl⟩
    · obtain ⟨q, hq, hqs⟩ := h.opened s id ho
      exact ⟨q, hold id q hq, hqs⟩
    · exact ⟨p, hnew, rfl⟩
  · refine h.closed.mono hkeep fun s id hs => ?_
    rwa [Tier.addLot, Cache.add_closed] at hs
  · intro s id hs
    rw [Tier.addLot, Cache.add_closed]
    rcases Cache.lookup_add hs with ho | ⟨rfl, rfl⟩
    · exact h.apart s id ho
    · intro hc
      obtain ⟨q, hq, -⟩ := h.closed _ _ hc
      exact absurd (lot_lt hq) (lt_irrefl _)

theorem WellFormed.enter {tier : Tier} (h : tier.WellFormed) (env : Env) (symbol path : String)
    (pathFound : Bool) : (tier.enter env symbol path pathFound).1.WellFormed := by
  rcases enter_cases env symbol path pathFound tier with ⟨-, he, -⟩ | ⟨p, vol, -, -, hp, he⟩
  · rw [he]
    exact h
  · rw [he, ← hp.symbol]
    exact (h.addLot p).send env p .enter

theorem WellFormed.exit {tier : Tier} (h : tier.WellFormed) (env : Env) (p : Position) :
    (tier.exit env p).1.WellFormed :=
  (h.remove p.symbol).send env p .exit

theorem WellFormed.clearPending {tier : Tier} (h : tier.WellFormed) (symbol : String) :
    (tier.clearPending symbol).WellFormed := by
  unfold Tier.clearPending
  split
  · exact h
  · refine ⟨h.opened, h.closed, ?_, h.apart⟩
    refine h.pending.mono (fun _ p hp => ⟨p, hp, rfl⟩) fun s id hs => ?_
    by_cases heq : s = symbol
    · rw [heq, AList.lookup_erase] at hs; cases hs
    · rwa [AList.lookup_erase_ne heq] at hs

/-- Every event keeps a tier well formed. -/
theorem WellFormed.step {tier : Tier} (h : tier.WellFormed) (event : Event) :
    (tier.step event).WellFormed := by
  cases event with
  | enter env symbol path pathFound => exact h.enter env symbol path pathFound
  | update env symbol mark => exact h.foldl_touch (lotCall_updateCall env mark) _
  | apply env execution => exact h.foldl_touch (lotCall_applyCall env execution) _
  | exit env id =>
    cases hl : tier.lot id with
    | none => simpa only [Tier.step, hl] using h
    | some p => simpa only [Tier.step, hl] using h.exit env p
  | unlock paper => exact ⟨h.opened, h.closed, h.pending, h.apart⟩
  | clearPending symbol => exact h.clearPending symbol

/-- An entry changes neither the transport nor the type of the tier. -/
theorem enter_frame (tier : Tier) (env : Env) (symbol path : String) (pathFound : Bool) :
    (tier.enter env symbol path pathFound).1.hasTransport = tier.hasTransport ∧
      (tier.enter env symbol path pathFound).1.tierType = tier.tierType := by
  rcases enter_cases env symbol path pathFound tier with ⟨-, he, -⟩ | ⟨p, vol, -, -, -, he⟩
  · rw [he]
    exact ⟨rfl, rfl⟩
  · rw [he]
    obtain ⟨-, -, -, -, htype, htransport⟩ := send_frame env p .enter (tier.addLot symbol p)
    exact ⟨htransport, htype⟩

theorem exit_frame (tier : Tier) (env : Env) (p : Position) :
    (tier.exit env p).1.hasTransport = tier.hasTransport ∧
      (tier.exit env p).1.tierType = tier.tierType := by
  obtain ⟨-, -, -, -, htype, htransport⟩ :=
    send_frame env p .exit { tier with positions := tier.positions.remove p.symbol }
  exact ⟨htransport, htype⟩

theorem clearPending_frame (tier : Tier) (symbol : String) :
    (tier.clearPending symbol).hasTransport = tier.hasTransport ∧
      (tier.clearPending symbol).tierType = tier.tierType ∧
      (tier.clearPending symbol).lots = tier.lots ∧
      (tier.clearPending symbol).positions = tier.positions := by
  unfold clearPending
  split <;> exact ⟨rfl, rfl, rfl, rfl⟩

/-- No event replaces the transport or the type of a tier. -/
theorem step_frame (tier : Tier) (event : Event) :
    (tier.step event).hasTransport = tier.hasTransport ∧
      (tier.step event).tierType = tier.tierType := by
  cases event with
  | enter env symbol path pathFound => exact enter_frame tier env symbol path pathFound
  | update env symbol mark => exact (foldl_touch_frame _ tier).2
  | apply env execution => exact (foldl_touch_frame _ tier).2
  | exit env id =>
    cases hl : tier.lot id with
    | none => simp only [step, hl, and_self]
    | some p =>
      simp only [step, hl]
      exact exit_frame tier env p
  | unlock paper => exact ⟨rfl, rfl⟩
  | clearPending symbol =>
    obtain ⟨htransport, htype, -⟩ := clearPending_frame tier symbol
    exact ⟨htransport, htype⟩

/-! ## The tier at start-up -/

/-- A restored lot is the stored one without price and callback. -/
theorem restore_eq {key : String} {stored p : Position} (h : restore key stored = some p) :
    p.symbol = stored.symbol ∧ p.closedAt = stored.closedAt ∧ p.hasOnSettled = false := by
  unfold restore at h
  split at h
  · cases h
  · cases h
    exact ⟨rfl, rfl, rfl⟩

/-- What restoring gives each lot holds of all restored lots. -/
theorem mem_foldl_restoreInto {Q : Position → Prop} (key : String) (stored : List Position)
    (acc : List Position × LotMap)
    (hQ : ∀ x ∈ stored, ∀ p, restore key x = some p → Q p) (hacc : ∀ q ∈ acc.1, Q q) :
    ∀ q ∈ (stored.foldl (restoreInto key) acc).1, Q q := by
  induction stored generalizing acc with
  | nil => exact hacc
  | cons x xs ih =>
    refine ih _ (fun y hy => hQ y (List.mem_cons_of_mem x hy)) ?_
    unfold restoreInto
    split
    · exact hacc
    · rename_i y hy
      intro q hq
      rcases List.mem_append.mp hq with hq | hq
      · exact hacc q hq
      · rw [List.mem_singleton.mp hq]
        exact hQ x List.mem_cons_self y hy

/-- What restoring gives each stored lot holds of all the lots a tier starts with. -/
theorem lot_new {Q : Position → Prop} (cfg : Cfg) (tierType : TierType) (hasTransport : Bool)
    {storedOpen storedClosed : List Position}
    (hopen : ∀ x ∈ storedOpen, ∀ p, restore tierType.string x = some p → Q p)
    (hclosed : ∀ x ∈ storedClosed, ∀ p, restore tierType.string x = some p → Q p)
    {id : LotId} {p : Position}
    (hp : (new cfg tierType hasTransport storedOpen storedClosed).lot id = some p) : Q p := by
  have hopened := mem_foldl_restoreInto tierType.string storedOpen ([], ∅) hopen
    fun q hq => absurd hq List.not_mem_nil
  exact mem_foldl_restoreInto tierType.string storedClosed
    ((storedOpen.foldl (restoreInto tierType.string) ([], ∅)).1, ∅) hclosed
    hopened p (List.mem_of_getElem? hp)

/-- The lots a tier starts with call nobody back. -/
theorem hasOnSettled_new (cfg : Cfg) (tierType : TierType) (hasTransport : Bool)
    (storedOpen storedClosed : List Position) {id : LotId} {p : Position}
    (hp : (new cfg tierType hasTransport storedOpen storedClosed).lot id = some p) :
    p.hasOnSettled = false :=
  lot_new cfg tierType hasTransport (fun _ _ _ h => (restore_eq h).2.2)
    (fun _ _ _ h => (restore_eq h).2.2) hp

/-- A map whose addresses, from `base` on, are those of lots of the right
symbol that satisfy `Q`. -/
def Restored (Q : Position → Prop) (base : Nat) (acc : List Position × LotMap) : Prop :=
  ∀ symbol id, acc.2.lookup symbol = some id →
    base ≤ id ∧ ∃ p, acc.1[id]? = some p ∧ p.symbol = symbol ∧ Q p

/-- A restored lot gets a fresh address under its own symbol. -/
theorem restored_restoreInto {Q : Position → Prop} {base : Nat} {key : String}
    {acc : List Position × LotMap} (hbase : base ≤ acc.1.length) (h : Restored Q base acc)
    {stored : Position} (hQ : ∀ p, restore key stored = some p → Q p) :
    Restored Q base (restoreInto key acc stored) := by
  unfold restoreInto
  split
  · exact h
  · rename_i position hr
    intro s id hs
    by_cases heq : s = position.symbol
    · subst heq
      rw [AList.lookup_insert] at hs
      cases hs
      exact ⟨hbase, position, List.getElem?_concat_length, rfl, hQ position hr⟩
    · rw [AList.lookup_insert_ne heq] at hs
      obtain ⟨hid, p, hp, hps⟩ := h s id hs
      have hlt := (List.getElem?_eq_some_iff.mp hp).1
      exact ⟨hid, p, by rw [List.getElem?_append_left hlt]; exact hp, hps⟩

/-- Restoring a lot adds at the end. -/
theorem restoreInto_prefix (key : String) (acc : List Position × LotMap) (stored : Position) :
    ∃ more, (restoreInto key acc stored).1 = acc.1 ++ more := by
  unfold restoreInto
  split
  · exact ⟨[], (List.append_nil _).symm⟩
  · exact ⟨[_], rfl⟩

/-- Restoring a list of lots only appends to the arena and keeps such a map. -/
theorem foldl_restoreInto {Q : Position → Prop} {base : Nat} (key : String)
    (stored : List Position) (acc : List Position × LotMap) (hbase : base ≤ acc.1.length)
    (h : Restored Q base acc) (hQ : ∀ x ∈ stored, ∀ p, restore key x = some p → Q p) :
    (∃ more, (stored.foldl (restoreInto key) acc).1 = acc.1 ++ more) ∧
      Restored Q base (stored.foldl (restoreInto key) acc) := by
  induction stored generalizing acc with
  | nil => exact ⟨⟨[], (List.append_nil _).symm⟩, h⟩
  | cons x xs ih =>
    obtain ⟨more, hmore⟩ := restoreInto_prefix key acc x
    have hlen : base ≤ (restoreInto key acc x).1.length := by
      rw [hmore, List.length_append]
      exact hbase.trans (Nat.le_add_right _ _)
    obtain ⟨⟨rest, hrest⟩, hinv⟩ := ih (restoreInto key acc x) hlen
      (restored_restoreInto hbase h (hQ x List.mem_cons_self))
      fun y hy => hQ y (List.mem_cons_of_mem x hy)
    refine ⟨⟨more ++ rest, ?_⟩, hinv⟩
    rw [List.foldl_cons, hrest, hmore, List.append_assoc]

/-- Before any lot is restored the map is empty. -/
theorem restored_empty (Q : Position → Prop) (base : Nat) (lots : List Position) :
    Restored Q base (lots, ∅) := by
  intro s id hs
  rw [AList.lookup_empty] at hs
  cases hs

/-- The closed cache a tier starts with holds lots restored from the store. -/
theorem closed_new {Q : Position → Prop} (cfg : Cfg) (tierType : TierType) (hasTransport : Bool)
    (storedOpen storedClosed : List Position)
    (hQ : ∀ x ∈ storedClosed, ∀ p, restore tierType.string x = some p → Q p) :
    let tier := new cfg tierType hasTransport storedOpen storedClosed
    ∀ symbol id, tier.positions.closed.lookup symbol = some id →
      (storedOpen.foldl (restoreInto tierType.string) ([], ∅)).1.length ≤ id ∧
        ∃ p, tier.lot id = some p ∧ p.symbol = symbol ∧ Q p :=
  (foldl_restoreInto tierType.string storedClosed _ le_rfl (restored_empty Q _ _) hQ).2

/-- A tier starts well formed, whatever the store holds. -/
theorem wellFormed_new (cfg : Cfg) (tierType : TierType) (hasTransport : Bool)
    (storedOpen storedClosed : List Position) :
    (new cfg tierType hasTransport storedOpen storedClosed).WellFormed := by
  have htrue : ∀ (l : List Position), ∀ x ∈ l, ∀ p, restore tierType.string x = some p → True :=
    fun _ _ _ _ _ => trivial
  obtain ⟨-, hopen⟩ := foldl_restoreInto tierType.string storedOpen ([], ∅) (Nat.zero_le _)
    (restored_empty (fun _ => True) 0 []) (htrue storedOpen)
  obtain ⟨⟨more, hmore⟩, -⟩ := foldl_restoreInto tierType.string storedClosed
    ((storedOpen.foldl (restoreInto tierType.string) ([], ∅)).1, ∅) (Nat.zero_le _)
    (restored_empty (fun _ => True) 0 _) (htrue storedClosed)
  have hclosed := closed_new cfg tierType hasTransport storedOpen storedClosed (htrue storedClosed)
  refine ⟨?_, fun s id hs => ?_, ?_, ?_⟩
  · intro s id hs
    obtain ⟨-, p, hp, hps, -⟩ := hopen s id hs
    refine ⟨p, ?_, hps⟩
    change (storedClosed.foldl (restoreInto tierType.string) _).1[id]? = some p
    rw [hmore, List.getElem?_append_left (List.getElem?_eq_some_iff.mp hp).1]
    exact hp
  · obtain ⟨-, p, hp, hps, -⟩ := hclosed s id hs
    exact ⟨p, hp, hps⟩
  · intro s id hs
    change (∅ : LotMap).lookup s = some id at hs
    rw [AList.lookup_empty] at hs
    cases hs
  · -- closed lots are restored past the open ones
    intro s id hs hc
    obtain ⟨-, p, hp, -⟩ := hopen s id hs
    exact absurd (List.getElem?_eq_some_iff.mp hp).1 (not_lt.mpr (hclosed s id hc).1)

/-- What entering, marks and reports give every lot is kept by an event. -/
theorem lots_step {Q : Position → Prop}
    (hnew : ∀ p tierKey symbol path vol, Opened p tierKey symbol path vol → Q p)
    (hupdate : ∀ env pace mark p, Q p → Q (p.update env pace mark).1)
    (happly : ∀ env pace execution p, Q p → Q (p.apply env pace execution).1)
    {tier : Tier} (h : ∀ id p, tier.lot id = some p → Q p) (event : Event) :
    ∀ id p, (tier.step event).lot id = some p → Q p := by
  -- marks and reports go through `touch`, lot by lot
  have hfold : ∀ (order : MapOrder) (call : LotId → Position → Position × Bool),
      (∀ id p, Q p → Q (call id p).1) →
      ∀ (ids : List LotId) (tier : Tier), (∀ id p, tier.lot id = some p → Q p) →
      ∀ id p, (ids.foldl (Tier.touch order call) tier).lot id = some p → Q p := by
    intro order call hcall ids
    induction ids with
    | nil => exact fun _ h => h
    | cons x xs ih =>
      intro tier h
      refine ih (tier.touch order call x) fun id p hp => ?_
      rw [lot_touch] at hp
      split at hp
      · obtain ⟨q, hq, rfl⟩ := Option.map_eq_some_iff.mp hp
        exact hcall x q (h x q hq)
      · exact h id p hp
  cases event with
  | enter env symbol path pathFound =>
    intro id q hq
    rcases enter_cases env symbol path pathFound tier with ⟨-, he, -⟩ | ⟨p, vol, -, -, hp, he⟩
    · change (tier.enter env symbol path pathFound).1.lot id = some q at hq
      rw [he] at hq
      exact h id q hq
    · change (tier.enter env symbol path pathFound).1.lot id = some q at hq
      rw [he, lot, (send_frame env p .enter _).1] at hq
      rcases lot_of_addLot hq with hold | ⟨-, rfl⟩
      · exact h id q hold
      · exact hnew q _ _ _ _ hp
  | update env symbol mark =>
    exact hfold _ _ (fun id p => hupdate env (env.pace id) mark p) _ tier h
  | apply env execution =>
    exact hfold _ _ (fun id p => happly env (env.pace id) execution p) _ tier h
  -- the other operations move lots between the maps and rewrite none
  | exit env id =>
    intro x q hq
    cases hl : tier.lot id with
    | none =>
      simp only [step, hl] at hq
      exact h x q hq
    | some p =>
      simp only [step, hl] at hq
      rw [lot, exit, (send_frame env p .exit _).1] at hq
      exact h x q hq
  | unlock paper => exact h
  | clearPending symbol =>
    intro x q hq
    change (tier.clearPending symbol).lot x = some q at hq
    rw [lot, (clearPending_frame tier symbol).2.2.1] at hq
    exact h x q hq

end Tier

/-! ## The desk -/

namespace Desk

/-- Every tier is well formed and is the one the desk lists it as. -/
def WellFormed (desk : Desk) : Prop :=
  ∀ tt, (desk.tiers tt).WellFormed ∧ (desk.tiers tt).tierType = tt

/-- A desk is well formed when it is made, whatever was stored. -/
theorem wellFormed_new (cfg : Cfg) (hasTransport : TierType → Bool)
    (stored : TierType → Stored) : (new cfg hasTransport stored).WellFormed := fun tt =>
  ⟨Tier.wellFormed_new cfg tt (hasTransport tt) (stored tt).opened (stored tt).closed, rfl⟩

/-- Writing a lot through its tier. -/
theorem lot_set_setLot {desk : Desk} {tt : TierType} {id : LotId} {p : Position}
    (hp : desk.lot tt id = some p) (q : Position) (tt' : TierType) (id' : LotId) :
    (desk.set tt ((desk.tiers tt).setLot id q)).lot tt' id' =
      if tt' = tt ∧ id' = id then some q else desk.lot tt' id' := by
  unfold lot at hp ⊢
  by_cases htt : tt' = tt
  · subst htt
    rw [set_self, Tier.lot_setLot, hp, Option.map_some]
    simp only [true_and]
  · rw [set_other desk _ htt, if_neg fun h => htt h.1]

/-- A desk stays well formed with a well-formed tier in its place. -/
theorem WellFormed.set {desk : Desk} (h : desk.WellFormed) {tt : TierType} {tier : Tier}
    (hwf : tier.WellFormed) (htype : tier.tierType = tt) : (desk.set tt tier).WellFormed := by
  intro tt'
  by_cases heq : tt' = tt
  · rw [heq, set_self]
    exact ⟨hwf, htype⟩
  · rw [set_other desk tier heq]
    exact h tt'

/-- Marks keep the desk well formed. -/
theorem WellFormed.mark {desk : Desk} (h : desk.WellFormed) (env : TierType → Env)
    (symbol : String) (price : Option Decimal) : (desk.mark env symbol price).WellFormed := by
  unfold Desk.mark
  split
  · exact h
  · exact fun tt => ⟨(h tt).1.step (.update (env tt) symbol price),
      (Tier.step_frame _ (.update (env tt) symbol price)).2.trans (h tt).2⟩

/-- Reports do. -/
theorem WellFormed.applyReport {desk : Desk} (h : desk.WellFormed)
    (report : (TierType → Env) × ExecutionData) : (desk.applyReport report).WellFormed :=
  fun tt => ⟨(h tt).1.step (.apply (report.1 tt) report.2),
    (Tier.step_frame _ (.apply (report.1 tt) report.2)).2.trans (h tt).2⟩

theorem WellFormed.enter {desk : Desk} (h : desk.WellFormed) (env : Env) (symbol path : String)
    (tt : TierType) (pathFound : Bool) :
    (desk.enter env symbol path tt pathFound).1.WellFormed := by
  have hunlocked := (h tt).1.step (.unlock (some (desk.tiers .paper)))
  exact h.set (hunlocked.enter env symbol path pathFound)
    ((Tier.enter_frame _ env symbol path pathFound).2.trans (h tt).2)

theorem WellFormed.exit {desk : Desk} (h : desk.WellFormed) (env : Env) (p : Position)
    (tt : TierType) : (desk.exit env p tt).1.WellFormed :=
  h.set ((h tt).1.exit env p) ((Tier.exit_frame _ env p).2.trans (h tt).2)

theorem WellFormed.clearPending {desk : Desk} (h : desk.WellFormed) (symbol : String) :
    (desk.clearPending symbol).WellFormed :=
  fun tt => ⟨(h tt).1.clearPending symbol,
    (Tier.clearPending_frame _ symbol).2.1.trans (h tt).2⟩

/-- Every event keeps a desk well formed. -/
theorem WellFormed.step {desk : Desk} (h : desk.WellFormed) (event : Event) :
    (desk.step event).WellFormed := by
  cases event with
  | mark env symbol price => exact h.mark env symbol price
  | apply report => exact h.applyReport report
  | enter env symbol path tt pathFound => exact h.enter env symbol path tt pathFound
  | exit env owner id tt =>
    cases hl : desk.lot owner id with
    | none => simpa only [Desk.step, hl] using h
    | some p => simpa only [Desk.step, hl] using h.exit env p tt
  | clearPending symbol => exact h.clearPending symbol

/-- A mark rewrites the lots it reaches and keeps what names them. -/
theorem sameLot_mark {desk : Desk} {tt : TierType} {id : LotId} {p : Position}
    (hp : desk.lot tt id = some p) (env : TierType → Env) (symbol : String)
    (price : Option Decimal) :
    ∃ q, (desk.mark env symbol price).lot tt id = some q ∧ Position.SameLot p q := by
  unfold mark
  split
  · exact ⟨p, hp, Position.SameLot.refl p⟩
  · exact Tier.sameLot_foldl_touch (Tier.lotCall_updateCall (env tt) price) _ hp

/-- So does a report. -/
theorem sameLot_applyReport {desk : Desk} {tt : TierType} {id : LotId} {p : Position}
    (hp : desk.lot tt id = some p) (report : (TierType → Env) × ExecutionData) :
    ∃ q, (desk.applyReport report).lot tt id = some q ∧ Position.SameLot p q :=
  Tier.sameLot_foldl_touch (Tier.lotCall_applyCall (report.1 tt) report.2) _ hp

end Desk

end Symm.Broker
