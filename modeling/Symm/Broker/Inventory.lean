import Symm.Broker.TierSpec
import Symm.Broker.Desk
import Symm.Lib.Total

/-!
# Inventory of a tier

Every lot a tier opens sends a buy of its volume. This module compares the
orders the transport accepted with the lots in the open cache: a tier is
`Balanced` if what was bought, less what was sold, is what is open. It loses the
balance in one place, when a lot leaves the open cache without a sell of its
volume, and the only such routes are a stop whose callback removes the lot
(`Position.Update`) and an `Exit` of a lot that is not the one open on its symbol.

- `tradedVolume`, `netBought`: what the orders on record add up to;
- `openVolume`: the volume of the open lots;
- `Conserving`: the events that let no lot go without its sell;
- `balanced_enter`, `balanced_exit`, `balanced_foldl_touch`: one event each;
- `netBought_eq_openVolume_iff`: the two agree along a run exactly if its events
  conserve.
-/

namespace Symm.Broker

open Symm.System Symm.Lib

/-- The volume of the orders of one side in a log. -/
def tradedVolume (side : String) (log : List AddOrder) : Decimal :=
  ((log.filter (·.side = side)).map fun message => message.orderQty.getD 0).sum

theorem tradedVolume_append (side : String) (log : List AddOrder) (message : AddOrder) :
    tradedVolume side (log ++ [message]) =
      tradedVolume side log + if message.side = side then message.orderQty.getD 0 else 0 := by
  unfold tradedVolume
  rw [List.filter_append, List.map_append, List.sum_append]
  by_cases h : message.side = side <;> simp [h]

namespace Tier

/-- Total buy volume less total sell volume of the messages written. -/
def netBought (tier : Tier) : Decimal :=
  tradedVolume "buy" tier.sent - tradedVolume "sell" tier.sent

/-- The volume of the lot at an address. -/
def volumeAt (tier : Tier) (id : LotId) : Decimal :=
  ((tier.lot id).map Position.volume).getD 0

/-- The volume of the lots in the open cache. -/
def openVolume (tier : Tier) : Decimal := total tier.volumeAt tier.positions.opened

/-- The volume open on one symbol. -/
def openVolumeOf (tier : Tier) (symbol : String) : Decimal :=
  weightAt tier.volumeAt tier.positions.opened symbol

/-- The net volume that the exit order of a lot sells. -/
def exitVolume (p : Position) : Decimal :=
  tradedVolume "sell" (p.exitOrder.map (AddOrder.of p)).toList -
    tradedVolume "buy" (p.exitOrder.map (AddOrder.of p)).toList

/-- The messages of the event can be marshalled and written. -/
def Event.Writes : Event → Prop
  | .enter env .. | .exit env _ => env.marshalOk = true ∧ env.writeOk = true
  | _ => True

/-- The events that keep bought, sold and open volume in balance: no lot is
opened under the empty symbol, which `Cache.Add` ignores; no stop takes volume
out of the open cache; an exit sells the volume open on its symbol. -/
def Conserving (tier : Tier) : Event → Prop
  | .enter env symbol path _ =>
    symbol = "" → path = "" ∨ ∀ vol, tier.entryQty env symbol ≠ .ok vol
  | .update env symbol mark =>
    (∃ id ∈ tier.positions.all symbol, tier.StopsOut env mark id) → tier.openVolumeOf symbol = 0
  | .apply env execution =>
    (∃ id ∈ tier.positions.openOf execution.symbol, tier.StopsOutOn env execution id) →
      tier.openVolumeOf execution.symbol = 0
  | .exit _ id => ∀ p, tier.lot id = some p → exitVolume p = tier.openVolumeOf p.symbol
  | .unlock _ => True
  | .clearPending _ => True

/-- The tier holds what it bought and did not sell. -/
def Balanced (tier : Tier) : Prop := tier.netBought = tier.openVolume

section

variable {tier : Tier}

/-- Removing a symbol from the open cache takes its volume out. -/
theorem openVolume_remove (symbol : String) :
    total tier.volumeAt (tier.positions.remove symbol).opened =
      tier.openVolume - tier.openVolumeOf symbol := by
  cases h : tier.positions.opened.lookup symbol with
  | none =>
    rw [Cache.remove_of_absent h, openVolumeOf, weightAt, h, Option.map_none, Option.getD_none,
      sub_zero, openVolume]
  | some id =>
    rw [Cache.remove_of_lookup h]
    exact total_erase tier.volumeAt tier.positions.opened symbol

/-- A fold of calls over lots of one symbol leaves the log alone and takes the
volume of the symbol out of the open cache if one of the lots settles. -/
theorem balance_foldl_touch (order : MapOrder)
    {call : LotId → Position → Position × Bool}
    (hcall : ∀ id, Position.LotCall (call id)) {ids : List LotId} (hnd : ids.Nodup)
    {symbol : String} (hsym : ∀ id ∈ ids, ∀ p, tier.lot id = some p → p.symbol = symbol) :
    (ids.foldl (touch order call) tier).netBought = tier.netBought ∧
      (ids.foldl (touch order call) tier).openVolume =
        if ids.any (tier.settlesAt call) then tier.openVolume - tier.openVolumeOf symbol
        else tier.openVolume := by
  have hvolume : (ids.foldl (touch order call) tier).volumeAt = tier.volumeAt := by
    funext id
    unfold volumeAt
    rw [lot_foldl_touch hnd]
    split
    · cases tier.lot id with
      | none => rfl
      | some p => exact congrArg (fun v => (some v).getD 0) ((hcall id).same p).volume
    · rfl
  have hcallsym : ∀ id ∈ ids, ∀ p, tier.lot id = some p → (call id p).1.symbol = symbol := by
    intro id hid p hp
    rw [((hcall id).same p).symbol]
    exact hsym id hid p hp
  have hpos : (ids.foldl (touch order call) tier).positions = _ :=
    foldl_touch_positions hnd hcallsym
  refine ⟨by rw [netBought, (foldl_touch_frame ids tier).1, netBought], ?_⟩
  rw [openVolume, hvolume, hpos]
  split
  · exact openVolume_remove symbol
  · rfl

/-- So a fold keeps a balanced tier balanced exactly when no settling lot takes
volume with it. -/
theorem balanced_foldl_touch (order : MapOrder)
    {call : LotId → Position → Position × Bool}
    (hcall : ∀ id, Position.LotCall (call id)) {ids : List LotId} (hnd : ids.Nodup)
    {symbol : String} (hsym : ∀ id ∈ ids, ∀ p, tier.lot id = some p → p.symbol = symbol)
    (hbal : tier.Balanced) :
    (ids.foldl (touch order call) tier).Balanced ↔
      ((∃ id ∈ ids, tier.settlesAt call id = true) → tier.openVolumeOf symbol = 0) := by
  obtain ⟨hnet, hopen⟩ := balance_foldl_touch order hcall hnd hsym
  rw [Balanced, hnet, hopen, hbal, ← List.any_eq_true]
  split
  · rename_i h
    rw [eq_comm, sub_eq_self]
    exact ⟨fun h0 _ => h0, fun h0 => h0 h⟩
  · rename_i h
    exact ⟨fun _ h' => absurd h' h, fun _ => rfl⟩

/-- A lot appended under a free symbol adds its volume, unless the symbol is
empty. -/
theorem openVolume_addLot {p : Position} {symbol : String} (hwf : tier.WellFormed)
    (hfree : tier.positions.has symbol = false) :
    (tier.addLot symbol p).openVolume =
      if symbol = "" then tier.openVolume else p.volume + tier.openVolume := by
  obtain ⟨hnew, hold⟩ := lot_addLot tier symbol p
  have hsame : total (tier.addLot symbol p).volumeAt tier.positions.opened = tier.openVolume := by
    refine total_congr fun s id hs => ?_
    obtain ⟨q, hq, -⟩ := hwf.opened s id hs
    rw [volumeAt, hold id q hq, volumeAt, hq]
  have hlookup := Cache.has_eq_false.mp hfree
  split
  · rename_i hs
    have hadd : (tier.addLot symbol p).positions = tier.positions := by
      rw [addLot, Cache.add, if_pos (.inl hs)]
    rw [openVolume, hadd, hsame]
  · rename_i hs
    have hadd : (tier.addLot symbol p).positions.opened =
        tier.positions.opened.insert symbol tier.lots.length := by
      rw [addLot, Cache.add_of_free hs hlookup]
    rw [openVolume, hadd, total_insert hlookup, hsame, volumeAt, hnew, Option.map_some,
      Option.getD_some]

/-- Opening a lot buys its volume; it is held unless its symbol is empty. -/
theorem balanced_enter {env : Env} {symbol path : String} {pathFound : Bool}
    (hwf : tier.WellFormed) (ht : tier.hasTransport = true)
    (hm : env.marshalOk = true) (hw : env.writeOk = true) (hbal : tier.Balanced) :
    (tier.enter env symbol path pathFound).1.Balanced ↔
      Conserving tier (.enter env symbol path pathFound) := by
  rcases enter_cases env symbol path pathFound tier with
    ⟨hrefused, he, -⟩ | ⟨p, vol, hqty, hpath, hp, he⟩
  · rw [he]
    exact ⟨fun _ _ => hrefused, fun _ => hbal⟩
  · obtain ⟨order, horder, hfields⟩ := Option.map_eq_some_iff.mp hp.buys
    have hside : order.side = "buy" := congrArg Prod.fst hfields
    have hvol : order.volume = some vol := congrArg Prod.snd hfields
    have hpvol : p.volume = vol := by
      rw [Position.volume, horder, Option.bind_some, hvol, Option.getD_some]
    -- the order that goes out buys the volume of the lot
    have hbought : tradedVolume "buy" (tier.sent ++ [AddOrder.of p order]) -
        tradedVolume "sell" (tier.sent ++ [AddOrder.of p order]) = tier.openVolume + vol := by
      have hsell : order.side ≠ "sell" := by rw [hside]; decide
      rw [tradedVolume_append, tradedVolume_append, AddOrder.of, if_pos hside, if_neg hsell,
        hvol, Option.getD_some, ← hbal, netBought]
      ring
    rw [he, send_of_writes (show (tier.addLot symbol p).hasTransport = true from ht) hm hw]
    show tradedVolume "buy" (tier.sent ++ ((p.entryOrder).map (AddOrder.of p)).toList) -
        tradedVolume "sell" (tier.sent ++ ((p.entryOrder).map (AddOrder.of p)).toList) =
        (tier.addLot symbol p).openVolume ↔ _
    rw [horder, Option.map_some, Option.toList_some, hbought,
      openVolume_addLot hwf (entryQty_free hqty).1, hpvol]
    -- a lot without a symbol is bought and never opened
    by_cases hs : symbol = ""
    · rw [if_pos hs]
      refine ⟨fun h => absurd (add_eq_left.mp h) hp.pos.ne', fun h => ?_⟩
      rcases h hs with h' | h'
      · exact absurd h' hpath
      · exact absurd hqty (h' vol)
    · rw [if_neg hs, add_comm]
      exact ⟨fun _ h => absurd h hs, fun _ => rfl⟩

/-- An exit writes the lot's sell and frees its symbol. -/
theorem balanced_exit {env : Env} (p : Position) (ht : tier.hasTransport = true)
    (hm : env.marshalOk = true) (hw : env.writeOk = true) (hbal : tier.Balanced) :
    (tier.exit env p).1.Balanced ↔ exitVolume p = tier.openVolumeOf p.symbol := by
  have hlog : tradedVolume "buy" (tier.sent ++ (p.exitOrder.map (AddOrder.of p)).toList) -
      tradedVolume "sell" (tier.sent ++ (p.exitOrder.map (AddOrder.of p)).toList) =
      tier.openVolume - exitVolume p := by
    rw [← hbal, netBought, exitVolume]
    cases p.exitOrder with
    | none => simp [tradedVolume]
    | some order =>
      rw [Option.map_some, Option.toList_some, tradedVolume_append, tradedVolume_append]
      have hnil : ∀ side, tradedVolume side [] = 0 := fun side => rfl
      rw [show [AddOrder.of p order] = [] ++ [AddOrder.of p order] from rfl,
        tradedVolume_append, tradedVolume_append, hnil, hnil]
      ring
  have hremoved : ({ tier with positions := tier.positions.remove p.symbol } : Tier).hasTransport
      = true := ht
  unfold exit
  dsimp only
  rw [send_of_writes hremoved hm hw]
  show tradedVolume "buy" (tier.sent ++ (p.exitOrder.map (AddOrder.of p)).toList) -
      tradedVolume "sell" (tier.sent ++ (p.exitOrder.map (AddOrder.of p)).toList) =
      total tier.volumeAt (tier.positions.remove p.symbol).opened ↔ _
  rw [hlog, openVolume_remove, sub_right_inj]

end

/-- In a balanced tier an event keeps the balance exactly when it conserves. -/
theorem balanced_step_iff {tier : Tier} {event : Event} (hwf : tier.WellFormed)
    (ht : tier.hasTransport = true) (hwrites : event.Writes) (hbal : tier.Balanced) :
    (tier.step event).Balanced ↔ Conserving tier event := by
  cases event with
  | enter env symbol path pathFound =>
    exact balanced_enter hwf ht hwrites.1 hwrites.2 hbal
  -- marks and reports touch the lots of a symbol, one after the other
  | update env symbol mark =>
    have h := balanced_foldl_touch env.order (lotCall_updateCall env mark) (hwf.all_nodup symbol)
      (fun id hid p hp => hwf.symbol_of_all hid hp) hbal
    simp only [settlesAt_updateCall] at h
    exact h
  | apply env execution =>
    have hsym : ∀ id ∈ tier.positions.openOf execution.symbol, ∀ p, tier.lot id = some p →
        p.symbol = execution.symbol := fun id hid p hp =>
      hwf.symbol_of_all (Cache.mem_all.mpr (.inl (mem_openOf.mp hid))) hp
    have h := balanced_foldl_touch env.order (lotCall_applyCall env execution) (openOf_nodup _ _)
      hsym hbal
    simp only [settlesAt_applyCall] at h
    exact h
  | exit env id =>
    cases hl : tier.lot id with
    | none =>
      simp only [step, Conserving, hl]
      exact ⟨fun _ p hp => absurd hp (Option.some_ne_none p).symm, fun _ => hbal⟩
    | some p =>
      simp only [step, Conserving, hl, Option.some.injEq, forall_eq']
      exact balanced_exit p ht hwrites.1 hwrites.2 hbal
  -- the rest neither sends nor closes
  | unlock paper => exact ⟨fun _ => trivial, fun _ => hbal⟩
  | clearPending symbol =>
    refine ⟨fun _ => trivial, fun _ => ?_⟩
    show (tier.clearPending symbol).Balanced
    unfold Tier.clearPending
    split <;> exact hbal

/-- Over any run of a tier with a transport whose writes succeed, from any
stored lots: what was bought less what was sold is the volume of the open lots
in every state exactly when no open volume was restored and every event
conserves. -/
theorem netBought_eq_openVolume_iff (cfg : Cfg) (tierType : TierType)
    (storedOpen storedClosed : List Position) (events : List Event)
    (hwrites : ∀ event ∈ events, event.Writes) :
    Everywhere step Balanced (new cfg tierType true storedOpen storedClosed) events ↔
      (new cfg tierType true storedOpen storedClosed).openVolume = 0 ∧
        Along step Conserving (new cfg tierType true storedOpen storedClosed) events := by
  have hstart : (new cfg tierType true storedOpen storedClosed).Balanced ↔
      (new cfg tierType true storedOpen storedClosed).openVolume = 0 := by
    have hnone : (new cfg tierType true storedOpen storedClosed).netBought = 0 := sub_self 0
    rw [Balanced, hnone, eq_comm]
  have hinv : ∀ (tier : Tier) (event : Event), tier.WellFormed ∧ tier.hasTransport = true →
      (tier.step event).WellFormed ∧ (tier.step event).hasTransport = true :=
    fun tier event h => ⟨h.1.step event, (step_frame tier event).1.trans h.2⟩
  rw [← hstart]
  exact everywhere_iff_along hinv
    (fun tier event h hw hbal => balanced_step_iff h.1 h.2 hw hbal)
    ⟨wellFormed_new cfg tierType true storedOpen storedClosed, rfl⟩ hwrites

/-- The buy of a stopped lot is never followed by a sell, though it is no longer
open. -/
theorem sampleStopOut_not_balanced :
    ¬ Everywhere step Balanced (new Cfg.defaults .paper true [] []) (Desk.sampleRound "s" 100 80) := by
  intro h
  have hbought : (runFrom step (new Cfg.defaults .paper true [] [])
      (Desk.sampleRound "s" 100 80)).netBought = 2 := by
    decide +kernel
  have hopen : (runFrom step (new Cfg.defaults .paper true [] [])
      (Desk.sampleRound "s" 100 80)).openVolume = 0 := by
    decide +kernel
  have hlast := h.last
  rw [Balanced, hbought, hopen] at hlast
  exact absurd hlast two_ne_zero

/-- Of two events that conserve, an entry and an exit of the lot it opened. -/
theorem netBought_eq_openVolume_iff_sample :
    Everywhere step Balanced (new Cfg.defaults .paper true [] [])
        [.enter (Desk.sampleEnv "s" 1 99) "A/B" "p" true, .exit (Desk.sampleEnv "s" 2 99) 0] ↔
      (new Cfg.defaults .paper true [] []).openVolume = 0 ∧
        Along step Conserving (new Cfg.defaults .paper true [] [])
          [.enter (Desk.sampleEnv "s" 1 99) "A/B" "p" true,
            .exit (Desk.sampleEnv "s" 2 99) 0] := by
  refine netBought_eq_openVolume_iff Cfg.defaults .paper [] [] _ fun event hevent => ?_
  rcases List.mem_cons.mp hevent with rfl | hevent
  · exact ⟨rfl, rfl⟩
  · rw [List.mem_singleton.mp hevent]
    exact ⟨rfl, rfl⟩

end Tier

end Symm.Broker
