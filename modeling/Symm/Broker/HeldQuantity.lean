import Symm.Broker.Desk

/-!
# The held quantity and the fills

`Position.Update` folds the fills into the quantity it prices: a buy sets it to
the running total of the entry order, a sell takes its part off and stops at
zero. So a buy forgets the sells before it, and what the fold remembers of the
sells is what was sold since the last buy. Where nothing was bought, the volume
of the entry order stands in.

- `Reports`: the reports of the two orders of a lot in any interleaving, each order's
  own in order, so that a buy carries a running total;
- `soldSince`: what the fold remembers of the sells;
- `netQty`, `lotQty`: what the fills come to, and what a lot is meant to be priced at;
- `Remembered`: the sells before the last buy are none, or those after it cover all that
  was bought anyway;
- `held_follows`: along every run of a lot, under `Remembered`, which `quantity_iff` shows
  to be exact.

A sell that arrives before a buy of the same entry order is the crossing that the fold
forgets: the buy sets the quantity to its total again. In a run nothing but a report
adds to the fills, which is all that the step lemma has to say of marks and of the
policy's exits.
-/

namespace Symm.Broker

open Symm.Lib

namespace ExecutionData

/-- The quantity of one report, zero for one that carries none. -/
def qty (execution : ExecutionData) : Decimal := execution.lastQty.getD 0

def isBuy (execution : ExecutionData) : Bool := execution.side.toLower = "buy"

def isSell (execution : ExecutionData) : Bool := execution.side.toLower = "sell"

end ExecutionData

/-- The buys so far. -/
def boughtQty (fills : List ExecutionData) : Decimal :=
  ((fills.filter ExecutionData.isBuy).map ExecutionData.qty).sum

/-- The sells so far. -/
def soldQty (fills : List ExecutionData) : Decimal :=
  ((fills.filter ExecutionData.isSell).map ExecutionData.qty).sum

/-- The reports of an entry order and of an exit order, interleaved, after
`total` was bought: a buy carries the running total of its order. -/
inductive Reports : Decimal → List ExecutionData → Prop
  | nil (total : Decimal) : Reports total []
  | buy {total : Decimal} {fill : ExecutionData} {rest : List ExecutionData} :
      fill.isBuy = true → 0 ≤ fill.qty → fill.cumQty = some (total + fill.qty) →
      Reports (total + fill.qty) rest → Reports total (fill :: rest)
  | sell {total : Decimal} {fill : ExecutionData} {rest : List ExecutionData} :
      fill.isSell = true → 0 ≤ fill.qty → Reports total rest → Reports total (fill :: rest)

/-- What was sold since the last buy that traded, `none` before the first. -/
def soldSince : List ExecutionData → Option Decimal → Option Decimal
  | [], since => since
  | fill :: rest, since =>
    if fill.qty = 0 then soldSince rest since
    else if fill.isBuy then soldSince rest (some 0)
    else soldSince rest (since.map (· + fill.qty))

theorem isBuy_of_isSell {fill : ExecutionData} (h : fill.isSell = true) : fill.isBuy = false := by
  have hside : fill.side.toLower = "sell" := of_decide_eq_true h
  simp [ExecutionData.isBuy, hside]

theorem boughtQty_buy {fill : ExecutionData} (h : fill.isBuy = true) (rest : List ExecutionData) :
    boughtQty (fill :: rest) = fill.qty + boughtQty rest := by
  simp [boughtQty, h]

theorem boughtQty_sell {fill : ExecutionData} (h : fill.isSell = true)
    (rest : List ExecutionData) : boughtQty (fill :: rest) = boughtQty rest := by
  simp [boughtQty, isBuy_of_isSell h]

theorem soldQty_sell {fill : ExecutionData} (h : fill.isSell = true) (rest : List ExecutionData) :
    soldQty (fill :: rest) = fill.qty + soldQty rest := by
  simp [soldQty, h]

theorem soldQty_buy {fill : ExecutionData} (h : fill.isBuy = true) (rest : List ExecutionData) :
    soldQty (fill :: rest) = soldQty rest := by
  have hsell : fill.isSell = false := by
    have hside : fill.side.toLower = "buy" := of_decide_eq_true h
    simp [ExecutionData.isSell, hside]
  simp [soldQty, hsell]

/-! ## One report -/

/-- A report with a quantity carries it as the last quantity. -/
theorem lastQty_eq {fill : ExecutionData} (h : fill.qty ≠ 0) : fill.lastQty = some fill.qty := by
  cases hqty : fill.lastQty with
  | none => simp [ExecutionData.qty, hqty] at h
  | some lastQty => simp [ExecutionData.qty, hqty]

namespace Position

/-- A report that traded nothing is skipped. -/
theorem heldQty_idle {fill : ExecutionData} (h : fill.qty = 0) (rest : List ExecutionData)
    (qty : Option Decimal) : heldQty (fill :: rest) qty = heldQty rest qty := by
  rw [heldQty]
  cases hqty : fill.lastQty with
  | none => rfl
  | some lastQty =>
    have hzero : lastQty = 0 := by simpa [ExecutionData.qty, hqty] using h
    simp [hzero]

/-- A buy sets the quantity to the total it carries. -/
theorem heldQty_buy {fill : ExecutionData} (hbuy : fill.isBuy = true) (hpos : 0 < fill.qty)
    {total : Decimal} (htotal : 0 < total) (hcum : fill.cumQty = some total)
    (rest : List ExecutionData) (qty : Option Decimal) :
    heldQty (fill :: rest) qty = heldQty rest (some total) := by
  have hside : fill.side.toLower = "buy" := of_decide_eq_true hbuy
  rw [heldQty, lastQty_eq hpos.ne']
  simp [not_le.mpr hpos, hside, hcum, Option.filter, htotal]

/-- A sell takes its part off what there is. -/
theorem heldQty_sell {fill : ExecutionData} (hsell : fill.isSell = true) (hpos : 0 < fill.qty)
    (rest : List ExecutionData) (qty : Option Decimal) :
    heldQty (fill :: rest) qty = heldQty rest (qty.map fun held => max (held - fill.qty) 0) := by
  have hside : fill.side.toLower = "sell" := of_decide_eq_true hsell
  have hbuy : fill.side.toLower ≠ "buy" := by simp [hside]
  rw [heldQty, lastQty_eq hpos.ne']
  simp only [if_neg (not_le.mpr hpos), if_neg hbuy, if_pos hside]
  cases qty with
  | none => rfl
  | some held =>
    have hfloor : (if held - fill.qty ≤ 0 then 0 else held - fill.qty) =
        max (held - fill.qty) 0 := by
      split
      · rename_i hle
        rw [max_eq_right hle]
      · rename_i hgt
        rw [max_eq_left (not_le.mp hgt).le]
    simp only [hfloor, Option.map_some]

end Position

/-- Selling one part after another comes to selling them together. -/
theorem floor_sub {total sold qty : Decimal} (hqty : 0 ≤ qty) :
    max (max (total - sold) 0 - qty) 0 = max (total - (sold + qty)) 0 := by
  rcases le_total 0 (total - sold) with hheld | hheld
  · rw [max_eq_left hheld, sub_sub]
  · rw [max_eq_right hheld, max_eq_right (by linarith), max_eq_right (by linarith)]

/-! ## All reports -/

/-- The fold remembers what was bought, and of the sells those since the last
buy. -/
theorem Reports.heldQty_eq {total : Decimal} {fills : List ExecutionData}
    (h : Reports total fills) (htotal : 0 ≤ total) (since : Option Decimal) :
    Position.heldQty fills (since.map fun sold => max (total - sold) 0) =
      (soldSince fills since).map fun sold => max (total + boughtQty fills - sold) 0 := by
  induction h generalizing since with
  | nil total => simp [Position.heldQty, soldSince, boughtQty]
  -- a buy sets the quantity from its cumulative one, and what was sold before is forgotten
  | @buy total fill rest hbuy hqty hcum _ ih =>
    rw [boughtQty_buy hbuy, ← add_assoc, soldSince]
    rcases hqty.eq_or_lt with hzero | hpos
    · have hidle : fill.qty = 0 := hzero.symm
      simp only [hidle, add_zero] at ih
      rw [Position.heldQty_idle hidle, if_pos hidle, hidle, add_zero, ih htotal]
    · have hsum : 0 < total + fill.qty := add_pos_of_nonneg_of_pos htotal hpos
      have hrest := ih hsum.le (some 0)
      rw [Option.map_some, sub_zero, max_eq_left hsum.le] at hrest
      rw [Position.heldQty_buy hbuy hpos hsum hcum, if_neg hpos.ne', if_pos hbuy, hrest]
  | @sell total fill rest hsell hqty _ ih =>
    rw [boughtQty_sell hsell, soldSince]
    rcases hqty.eq_or_lt with hzero | hpos
    · rw [Position.heldQty_idle hzero.symm, if_pos hzero.symm, ih htotal]
    -- a sell is taken off, and never below zero
    · have hfloor : ((since.map fun sold => max (total - sold) 0).map fun held =>
          max (held - fill.qty) 0) =
          (since.map (· + fill.qty)).map fun sold => max (total - sold) 0 := by
        cases since with
        | none => rfl
        | some sold => exact congrArg some (floor_sub hpos.le)
      rw [Position.heldQty_sell hsell hpos, if_neg hpos.ne', isBuy_of_isSell hsell, hfloor,
        ih htotal]
      rfl

/-- There is a last buy exactly where a buy traded. -/
theorem soldSince_isSome (fills : List ExecutionData) (since : Option Decimal) :
    (soldSince fills since).isSome =
      (since.isSome || fills.any fun fill => fill.isBuy && fill.qty ≠ 0) := by
  induction fills generalizing since with
  | nil => simp [soldSince]
  | cons fill rest ih =>
    rw [soldSince, List.any_cons]
    split
    · rename_i hidle
      simp [ih, hidle]
    · rename_i htraded
      split
      · rename_i hbuy
        simp [ih, htraded, hbuy]
      · rename_i hbuy
        simp [ih, hbuy]

/-- What was sold since the last buy was sold. -/
theorem Reports.soldSince_le {total : Decimal} {fills : List ExecutionData}
    (h : Reports total fills) {before : Decimal} {since : Option Decimal} (hbefore : 0 ≤ before)
    (hsince : ∀ sold ∈ since, sold ≤ before) :
    ∀ sold ∈ soldSince fills since, sold ≤ before + soldQty fills := by
  induction h generalizing before since with
  | nil total => simpa [soldSince, soldQty] using hsince
  | @buy total fill rest hbuy hqty _ _ ih =>
    rw [soldQty_buy hbuy, soldSince, if_pos hbuy]
    split
    · exact ih hbefore hsince
    · exact ih hbefore (by simpa using hbefore)
  | @sell total fill rest hsell hqty _ ih =>
    rw [soldQty_sell hsell, soldSince, isBuy_of_isSell hsell, ← add_assoc]
    split
    · rename_i hidle
      rw [hidle, add_zero]
      exact ih hbefore hsince
    · refine ih (add_nonneg hbefore hqty) ?_
      intro sold hmem
      obtain ⟨s, hs, rfl⟩ := Option.mem_map.mp hmem
      exact add_le_add_left (hsince s hs) fill.qty

namespace Position

/-- What the fills come to. -/
def netQty (fills : List ExecutionData) : Decimal := max (boughtQty fills - soldQty fills) 0

/-- The quantity of a lot with these fills: what they come to, and the volume of
the entry order before anything was bought. -/
def lotQty (entryOrder : Option OrderRequest) (fills : List ExecutionData) : Option Decimal :=
  if fills.any fun fill => fill.isBuy && fill.qty ≠ 0 then some (netQty fills)
  else (entryOrder.bind OrderRequest.volume).filter (0 < ·)

/-- The sells since the last buy are all of them, or cover all that was bought. -/
def Remembered (fills : List ExecutionData) : Prop :=
  ∀ sold ∈ soldSince fills none, sold = soldQty fills ∨ boughtQty fills ≤ sold

/-- What the fold forgets of the sells has to be covered by the others. -/
theorem covered_iff {bought sold all : Decimal} (hsold : sold ≤ all) :
    max (bought - sold) 0 = max (bought - all) 0 ↔ sold = all ∨ bought ≤ sold := by
  constructor
  · intro heq
    by_contra! hno
    have hless : sold < all := lt_of_le_of_ne hsold hno.1
    rw [max_eq_left (by linarith [hno.2]), eq_comm, max_eq_iff] at heq
    rcases heq with ⟨heq, -⟩ | ⟨heq, -⟩ <;> linarith [hno.2]
  · rintro (rfl | hle)
    · rfl
    · rw [max_eq_right (by linarith), max_eq_right (by linarith)]

/-- The quantity that `Update` prices is that of the fills exactly when the fold
remembers the sells. -/
theorem quantity_iff {position : Position} (h : Reports 0 position.fills) :
    position.quantity = lotQty position.entryOrder position.fills ↔
      Remembered position.fills := by
  have hheld := h.heldQty_eq (le_refl 0) none
  have hspec := h.soldSince_le (le_refl 0) (show ∀ sold ∈ (none : Option Decimal), sold ≤ 0 by simp)
  have hsome := soldSince_isSome position.fills none
  rw [Option.map_none] at hheld
  rw [quantity, Remembered, hheld, lotQty, netQty]
  cases hs : soldSince position.fills none with
  | none =>
    rw [hs, Option.isSome_none, Bool.false_or] at hsome
    rw [← hsome]
    simp
  | some sold =>
    rw [hs, Option.isSome_some, Option.isSome_none, Bool.false_or] at hsome
    simp only [← hsome, Option.map_some, zero_add, Option.mem_some_iff, if_true,
      Option.some.injEq, forall_eq']
    refine covered_iff ?_
    simpa using hspec sold hs

/-! ## Runs of a lot -/

/-- A call on a lot: a mark, a report, or the policy's exit. -/
inductive Call
  | update (env : Env) (pace : ℚ) (mark : Option Decimal)
  | apply (env : Env) (pace : ℚ) (execution : ExecutionData)
  | exit (env : Env) (pace : ℚ) (path : String)

/-- The lot after a call. A refused exit leaves it as it was. -/
def step (position : Position) : Call → Position
  | .update env pace mark => (position.update env pace mark).1
  | .apply env pace execution => (position.apply env pace execution).1
  | .exit env pace path =>
    match position.exit env pace path with
    | .ok (position, _) => position
    | .error _ => position

/-- The reports that a run delivers. -/
def received (calls : List Call) : List ExecutionData :=
  calls.filterMap fun
    | .apply _ _ execution => some execution
    | _ => none

/-- Asking for an exit is no fill. -/
theorem exit_fills {env : Env} {pace : ℚ} {path : String} {p q : Position} {settled : Bool}
    (h : p.exit env pace path = .ok (q, settled)) :
    q.fills = p.fills ∧ q.entryOrder = p.entryOrder := by
  rw [exit] at h
  split at h
  · cases h
  · generalize hmarked : (if p.exitTrigger = "" then { p with
      exitTrigger := "policy exit match " ++ path
      outcomeTriggers := ["policy exit match " ++ path] } else p) = marked at h
    have hfills : marked.fills = p.fills := by rw [← hmarked]; split <;> rfl
    have horder : marked.entryOrder = p.entryOrder := by rw [← hmarked]; split <;> rfl
    dsimp only at h
    split at h
    · cases h
      exact ⟨hfills, horder⟩
    · obtain ⟨rfl, -⟩ := Prod.mk.inj (Except.ok.inj h)
      obtain ⟨hsame, hkept⟩ := update_spec env pace marked.mark { marked with
        closedAt := some env.now
        exitPath := if path ≠ "" ∧ path ≠ marked.entryPath then path else marked.exitPath
        exitTick := env.tick }
      exact ⟨hkept.trans hfills, hsame.entryOrder.trans horder⟩

/-- A call appends its report to the fills and leaves the entry order alone. -/
theorem step_fills (position : Position) (call : Call) :
    (position.step call).fills = position.fills ++ received [call] ∧
      (position.step call).entryOrder = position.entryOrder := by
  cases call with
  | update env pace mark =>
    obtain ⟨hsame, hfills⟩ := update_spec env pace mark position
    exact ⟨hfills.trans (List.append_nil _).symm, hsame.entryOrder⟩
  | apply env pace execution =>
    obtain ⟨hsame, hfills⟩ := apply_spec env pace execution position
    exact ⟨hfills, hsame.entryOrder⟩
  | exit env pace path =>
    rw [step]
    cases hexit : position.exit env pace path with
    | error err => exact ⟨(List.append_nil _).symm, rfl⟩
    | ok result =>
      obtain ⟨q, settled⟩ := result
      obtain ⟨hfills, horder⟩ := exit_fills hexit
      exact ⟨hfills.trans (List.append_nil _).symm, horder⟩

/-- A lot's fills are the reports it received, after those it began with. -/
theorem runFrom_fills (position : Position) (calls : List Call) :
    (runFrom step position calls).fills = position.fills ++ received calls ∧
      (runFrom step position calls).entryOrder = position.entryOrder := by
  induction calls generalizing position with
  | nil => exact ⟨(List.append_nil _).symm, rfl⟩
  | cons call calls ih =>
    obtain ⟨hfills, horder⟩ := ih (position.step call)
    obtain ⟨hfill, hentry⟩ := position.step_fills call
    rw [runFrom_cons, hfills, horder, hfill, hentry, List.append_assoc]
    refine ⟨?_, rfl⟩
    congr 1
    cases call <;> rfl

/-- In every run of a lot in which the reports of its two orders arrive, each
order's in order, the quantity it prices is that of the fills so far, as long as
the sells are remembered. -/
theorem held_follows {position : Position} {calls : List Call}
    (h : Reports 0 (position.fills ++ received calls))
    (hsells : Remembered (position.fills ++ received calls)) :
    (runFrom step position calls).quantity =
      lotQty position.entryOrder (position.fills ++ received calls) := by
  obtain ⟨hfills, horder⟩ := runFrom_fills position calls
  rw [← hfills] at h hsells ⊢
  rw [← horder]
  exact (quantity_iff h).mpr hsells

/-! ## Reports that cross -/

def sampleReport (side : String) (qty : Decimal) (cumQty : Option Decimal) : Call :=
  .apply (Desk.sampleEnv "h" 1 99) 1 {
    clientOrderID := "h" ++ side
    execID := ""
    symbol := "A/B"
    side := side
    lastQty := some qty
    lastPrice := some 100
    cumQty := cumQty
    avgPrice := some 100 }

def sampleOrdered : Position :=
  { new "A/B" "virtual" "p" "h" with
    entryOrder := some { clOrdId := "h1", orderType := "market", side := "buy", volume := some 2 } }

/-- Two units are bought, and one of them is sold. -/
theorem held_follows_sample :
    (runFrom step sampleOrdered
      [sampleReport "buy" 2 (some 2), sampleReport "sell" 1 none]).quantity = some 1 := by
  rw [held_follows]
  · decide +kernel
  · exact .buy (by decide +kernel) (by decide +kernel) (by decide +kernel)
      (.sell (by decide +kernel) (by decide +kernel) (.nil _))
  · unfold Remembered
    decide +kernel

/-- Before the first report the volume of the entry order stands in. One unit is
bought and sold, and the entry order buys its second: the fold holds both. -/
theorem held_forgets :
    (sampleOrdered.quantity = some 2 ∧ netQty [] = 0) ∧
    Reports 0 (received [sampleReport "buy" 1 (some 1), sampleReport "sell" 1 none,
      sampleReport "buy" 1 (some 2)]) ∧
    (runFrom step sampleOrdered [sampleReport "buy" 1 (some 1), sampleReport "sell" 1 none,
      sampleReport "buy" 1 (some 2)]).quantity = some 2 ∧
    netQty (received [sampleReport "buy" 1 (some 1), sampleReport "sell" 1 none,
      sampleReport "buy" 1 (some 2)]) = 1 := by
  refine ⟨by decide +kernel, ?_, by decide +kernel⟩
  exact .buy (by decide +kernel) (by decide +kernel) (by decide +kernel)
    (.sell (by decide +kernel) (by decide +kernel)
      (.buy (by decide +kernel) (by decide +kernel) (by decide +kernel) (.nil _)))

end Position

end Symm.Broker
