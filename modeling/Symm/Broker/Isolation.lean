import Symm.Broker.Desk
import Symm.Broker.TierSpec

/-!
# Execution reports and the lots they reach

Paper and live ingress feed one desk (`cmd/booter.go`, `pumpPrivate`), and
`Desk.Apply` hands each report to the open lot of its symbol in every tier.
The report names its order by `cl_ord_id`, which the paper venue stamps with
the identity of the request. A report is *routed* when every lot that would
receive it carries that id; it is *isolating* when the lots that do not carry
it keep what their fills decide. The two are the same.

Which of the lots carries the id does not depend on what the report says, so the
condition is asked of each report of a frame on the desk that the reports before it
left. One direction is that nobody else is written to. The other is that a lot which is
written to can be told: its record of fills is longer by the report
(`fills_applyCall_ne`), whatever that did to its price.
-/

namespace Symm.Broker

open Symm.Lib

/-- What the fills of a lot decide, and the stop over it. -/
structure SameFills (p q : Position) : Prop where
  fills : q.fills = p.fills
  entryPrice : q.entryPrice = p.entryPrice
  quantity : q.quantity = p.quantity
  pnl : q.pnl = p.pnl
  pnlPct : q.pnlPct = p.pnlPct
  stoploss : q.stoploss = p.stoploss

namespace Desk

/-- A lot, open or not and of any tier, whose orders do not carry the id of the
report keeps its fills and what is read from them. -/
def IsolatedStep (desk : Desk) (report : (TierType → Env) × ExecutionData) : Prop :=
  ∀ tt id p, desk.lot tt id = some p → p.carries report.2.clientOrderID = false →
    ∃ q, (desk.applyReport report).lot tt id = some q ∧ SameFills p q

/-- Every open lot on the symbol of the report carries its id. -/
def RoutedStep (desk : Desk) (report : (TierType → Env) × ExecutionData) : Prop :=
  ∀ tt id p, id ∈ (desk.tiers tt).positions.openOf report.2.symbol →
    desk.lot tt id = some p → p.carries report.2.clientOrderID = true

/-- A report reaches the open lot of its symbol in each tier, and no other. -/
theorem lot_applyReport (desk : Desk) (report : (TierType → Env) × ExecutionData)
    (tt : TierType) (id : LotId) :
    (desk.applyReport report).lot tt id =
      if id ∈ (desk.tiers tt).positions.openOf report.2.symbol then
        (desk.lot tt id).map fun p => (Tier.applyCall (report.1 tt) report.2 id p).1
      else desk.lot tt id :=
  Tier.lot_foldl_touch (Tier.openOf_nodup _ _) (desk.tiers tt) id

/-- The lot that receives a report has a longer record of fills. -/
theorem fills_applyCall_ne (env : Env) (execution : ExecutionData) (id : LotId) (p : Position) :
    (Tier.applyCall env execution id p).1.fills ≠ p.fills := by
  have hfills : (Tier.applyCall env execution id p).1.fills = p.fills ++ [execution] :=
    (Position.apply_spec env (env.pace id) execution p).2
  rw [hfills]
  intro h
  have hlen := congrArg List.length h
  rw [List.length_append, List.length_singleton] at hlen
  omega

/-- A report leaves every lot that does not carry its id alone exactly if every open lot of
its symbol carries it. -/
theorem isolatedStep_iff_routedStep (desk : Desk)
    (report : (TierType → Env) × ExecutionData) :
    IsolatedStep desk report ↔ RoutedStep desk report := by
  constructor
  · intro hiso tt id p hid hp
    by_contra hcarries
    obtain ⟨q, hq, hsame⟩ := hiso tt id p hp (Bool.eq_false_of_not_eq_true hcarries)
    rw [lot_applyReport, if_pos hid, hp, Option.map_some] at hq
    cases hq
    exact fills_applyCall_ne _ _ _ _ hsame.fills
  · intro hrouted tt id p hp hcarries
    have hid : id ∉ (desk.tiers tt).positions.openOf report.2.symbol := by
      intro hmem
      rw [hrouted tt id p hmem hp] at hcarries
      cases hcarries
    exact ⟨p, by rw [lot_applyReport, if_neg hid, hp], ⟨rfl, rfl, rfl, rfl, rfl, rfl⟩⟩

/-- A frame leaves the lots it does not name alone exactly when each of its
reports is applied to lots that carry its id. -/
theorem apply_isolated_iff_routed (desk : Desk)
    (frame : List ((TierType → Env) × ExecutionData)) :
    Along applyReport IsolatedStep desk frame ↔ Along applyReport RoutedStep desk frame :=
  along_congr isolatedStep_iff_routedStep desk frame

/-- The report of a paper entry is also written into the virtual lot on its
symbol. -/
theorem sampleFill_not_isolated :
    ¬ Along applyReport IsolatedStep sampleEntered
      [(fun _ => sampleEnv "f" 3 99, sampleFill "p1" 100)] := by
  rintro ⟨hiso, -⟩
  have hids : 0 ∈ (sampleEntered.tiers .virtual).positions.openOf "A/B" := by decide +kernel
  have hlot : (sampleEntered.lot .virtual 0).map (Position.carries · "p1") = some false := by
    decide +kernel
  obtain ⟨p, hp, hcarries⟩ := Option.map_eq_some_iff.mp hlot
  have hrouted := (isolatedStep_iff_routedStep _ _).mp hiso .virtual 0 p hids hp
  exact absurd (hcarries.symm.trans hrouted) Bool.false_ne_true

end Desk

end Symm.Broker
