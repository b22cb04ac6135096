import Symm.Broker.HeldQuantity
import Symm.Dashboard.Readout

/-!
# When a lot is flat (`broker/position.go`, `components/book-readout.ts`)

The desk and the dashboard read the same fills. `Position.Update` folds over them
without looking at `exec_id`: a buy sets the quantity to the running total it
carries, and every sell takes its part off. `executionTotals` sums both sides and
counts an `exec_id` once. They part over reports that are delivered again: a sell is
taken off twice, and a buy brings back what was there when it was first delivered.

- `Delivery`: the reports of an entry and an exit order, some delivered again;
- `totals_of_delivery`, `heldQty_of_delivery`: what each fold makes of them;
- `flat_iff`: when the two agree.

The dashboard's totals do not see a second delivery: the fold passes over an execution
that it knows, so they are the sums of what was bought and of what was sold. The desk's
quantity does: it is the total that the last delivered buy carries, less all that was
delivered of sells since (`sinceBuy`). `Tracks` compares the two at the end of the run,
where quantities that are not positive count as one.

The sums are exact, as the statement asks. The buys come before the sells when they are
delivered for the first time; a report may be delivered again at any later point.
-/

namespace Symm.Dashboard

open Symm.Lib Symm.Broker

/-- The reports of different executions among those delivered so far. -/
def known (executions : List ExecutionData) (execution : ExecutionData) : List ExecutionData :=
  if execution.execID ∈ executions.map ExecutionData.execID then executions
  else executions ++ [execution]

/-- The reports of the buys and then of the sells of a lot are delivered in order,
and any of them may be delivered again later. -/
structure Delivery (buys sells delivered : List ExecutionData) : Prop where
  once : delivered.foldl known [] = buys ++ sells
  again : ∀ execution ∈ delivered, execution ∈ buys ++ sells
  ids : ((buys ++ sells).map ExecutionData.execID).Nodup
  named : ∀ execution ∈ buys ++ sells, execution.execID ≠ ""
  buy : ∀ execution ∈ buys, execution.isBuy = true
  sell : ∀ execution ∈ sells, execution.isSell = true
  traded : ∀ execution ∈ buys ++ sells, 0 < execution.qty
  running : Reports 0 buys
  bought : buys ≠ []

/-- A fill of a row shows an execution, its quantity as a number or as a text. -/
structure Shows (execution : ExecutionData) (fill : Record) : Prop where
  side : fill "side" = .str execution.side
  execID : fill "exec_id" = .str execution.execID
  lastQty : decimal (fill "last_qty") = execution.lastQty

/-- What the last buy said was bought, and what was sold since. -/
def sinceBuy (since : Option (Decimal × Decimal)) (fill : ExecutionData) :
    Option (Decimal × Decimal) :=
  if fill.isBuy then some (fill.cumQty.getD 0, 0) else since.map fun s => (s.1, s.2 + fill.qty)

/-- The running total of the buy delivered last, less the sells delivered since, is
what was bought less what was sold, or neither is positive. -/
def Tracks (buys sells delivered : List ExecutionData) : Prop :=
  ∀ since ∈ delivered.foldl sinceBuy none,
    since.1 - since.2 = boughtQty buys - soldQty sells ∨
      since.1 ≤ since.2 ∧ boughtQty buys ≤ soldQty sells

/-- The desk's quantity is zero exactly where the dashboard has the lot fully sold, and
else it is the dashboard's. -/
def Agrees (quantity : Option Decimal) (host : Host) (row : Row) : Prop :=
  (quantity = some 0 ↔
    fullySold (executionTotals host row "buy") (executionTotals host row "sell") = true) ∧
  (fullySold (executionTotals host row "buy") (executionTotals host row "sell") = false →
    quantity = some ((positionReadout host row).entryQty.getD 0 -
      (positionReadout host row).exitQty.getD 0))

/-! ## The dashboard's totals -/

section Totals

variable {host : Host} {side : String} {execution : ExecutionData} {fill : Record}

/-- What the loop of `executionTotals` has after these executions. -/
structure Counted (side : String) (executions : List ExecutionData) (totals : Totals) : Prop where
  qty : totals.qty =
    ((executions.filter (·.side.toLower = side)).map ExecutionData.qty).sum
  saw : totals.sawFill = executions.any (·.side.toLower = side)
  seen : ∀ id, id ∈ totals.seen ↔
    ∃ execution ∈ executions, execution.side.toLower = side ∧ execution.execID = id

/-- A fill that shows an execution is known by its id. -/
theorem Shows.identity_eq (h : Shows execution fill) :
    identity host fill = some execution.execID := by
  unfold identity
  rw [h.execID]
  rfl

theorem Shows.fillQty_eq (h : Shows execution fill) (hpos : 0 < execution.qty) :
    fillQty fill = some execution.qty := by
  unfold fillQty
  rw [h.lastQty, lastQty_eq hpos.ne']
  simp [Option.filter, hpos]

theorem Shows.onSide_iff (h : Shows execution fill) :
    onSide side fill = true ↔ execution.side.toLower = side := by
  unfold onSide
  rw [h.side]
  exact decide_eq_true_iff

/-- Counting a fill adds its quantity, and does not say that it was seen. -/
theorem count_spec (host : Host) (totals : Totals) {qty : ℚ} (h : fillQty fill = some qty) :
    (totals.count host fill).qty = totals.qty + qty ∧
      (totals.count host fill).sawFill = true ∧ (totals.count host fill).seen = totals.seen := by
  unfold Totals.count
  rw [h]
  exact ⟨rfl, rfl, rfl⟩

/-- An execution delivered again has its first report's side, so the loop counts a
fill exactly where its execution was not known. -/
theorem Counted.add {executions : List ExecutionData} {totals : Totals}
    (h : Counted side executions totals) (hshows : Shows execution fill)
    (hpos : 0 < execution.qty)
    (hsame : ∀ e ∈ executions, e.execID = execution.execID → e = execution) :
    Counted side (known executions execution) (totals.add host side fill) := by
  -- by `hsame` an identifier that is known belongs to this very execution
  have hknown : execution.execID ∈ executions.map ExecutionData.execID ↔
      execution ∈ executions := by
    constructor
    · intro hmem
      obtain ⟨e, he, hid⟩ := List.mem_map.mp hmem
      exact hsame e he hid ▸ he
    · exact List.mem_map_of_mem
  unfold Totals.add known
  by_cases hside : execution.side.toLower = side
  · have hon : onSide side fill = true := hshows.onSide_iff.mpr hside
    -- the loop remembers identities, the sum executions
    rw [if_neg (not_not_intro hon), hshows.identity_eq]
    have hseen : execution.execID ∈ totals.seen ↔
        execution.execID ∈ executions.map ExecutionData.execID := by
      rw [hknown, h.seen]
      constructor
      · rintro ⟨e, he, -, hid⟩
        exact hsame e he hid ▸ he
      · exact fun he => ⟨execution, he, hside, rfl⟩
    dsimp only
    by_cases hold : execution.execID ∈ executions.map ExecutionData.execID
    · rw [if_pos (hseen.mpr hold), if_pos hold]
      exact h
    · rw [if_neg (mt hseen.mp hold), if_neg hold]
      obtain ⟨hqty, hsaw, hids⟩ := count_spec host
        { totals with seen := execution.execID :: totals.seen } (hshows.fillQty_eq hpos)
      refine ⟨?_, ?_, fun id => ?_⟩
      · rw [hqty, List.filter_append, List.map_append, List.sum_append, ← h.qty]
        simp [hside]
      · rw [hsaw, List.any_append]
        simp [hside]
      · rw [hids, List.mem_cons, h.seen]
        constructor
        · rintro (rfl | ⟨e, he, hrest⟩)
          · exact ⟨execution, by simp, hside, rfl⟩
          · exact ⟨e, List.mem_append_left _ he, hrest⟩
        · rintro ⟨e, he, heside, rfl⟩
          rcases List.mem_append.mp he with he | he
          · exact .inr ⟨e, he, heside, rfl⟩
          · exact .inl (congrArg ExecutionData.execID (List.mem_singleton.mp he))
  · -- a fill of the other side is in neither sum
    have hoff : ¬ onSide side fill = true := mt hshows.onSide_iff.mp hside
    rw [if_pos hoff]
    split
    · exact h
    · refine ⟨?_, ?_, fun id => ?_⟩
      · rw [List.filter_append, List.map_append, List.sum_append, ← h.qty]
        simp [hside]
      · rw [List.any_append, ← h.saw]
        simp [hside]
      · rw [h.seen]
        constructor
        · rintro ⟨e, he, hrest⟩
          exact ⟨e, List.mem_append_left _ he, hrest⟩
        · rintro ⟨e, he, heside, hid⟩
          rcases List.mem_append.mp he with he | he
          · exact ⟨e, he, heside, hid⟩
          · obtain rfl := List.mem_singleton.mp he
            exact absurd heside hside

/-- The loop of `executionTotals` over fills that show these executions. -/
theorem Counted.foldl {all executions delivered : List ExecutionData} {fills : List Record}
    {totals : Totals} (hids : (all.map ExecutionData.execID).Nodup)
    (htraded : ∀ e ∈ all, 0 < e.qty) (hshows : List.Forall₂ Shows delivered fills)
    (hdelivered : ∀ e ∈ delivered, e ∈ all) (hknown : ∀ e ∈ executions, e ∈ all)
    (h : Counted side executions totals) :
    Counted side (delivered.foldl known executions)
      (fills.foldl (Totals.add host side) totals) := by
  induction hshows generalizing executions totals with
  | nil => exact h
  | @cons execution fill delivered fills hfill _ ih =>
    have hmem := hdelivered execution List.mem_cons_self
    have hsame : ∀ e ∈ executions, e.execID = execution.execID → e = execution :=
      fun e he hid => List.inj_on_of_nodup_map hids (hknown e he) hmem hid
    refine ih (fun e he => hdelivered e (List.mem_cons_of_mem _ he)) (fun e he => ?_)
      (h.add hfill (htraded execution hmem) hsame)
    unfold known at he
    split at he
    · exact hknown e he
    · rcases List.mem_append.mp he with he | he
      · exact hknown e he
      · rw [List.mem_singleton.mp he]
        exact hmem

end Totals

section Delivery

variable {buys sells delivered : List ExecutionData} {host : Host} {row : Row}

/-- The buys of a delivery are the buys. -/
theorem Delivery.filter_buys (h : Delivery buys sells delivered) :
    (buys ++ sells).filter ExecutionData.isBuy = buys := by
  rw [List.filter_append, List.filter_eq_self.mpr h.buy, List.filter_eq_nil_iff.mpr,
    List.append_nil]
  intro e he
  rw [isBuy_of_isSell (h.sell e he)]
  nofun

/-- The sells of a delivery are the sells. -/
theorem Delivery.filter_sells (h : Delivery buys sells delivered) :
    (buys ++ sells).filter ExecutionData.isSell = sells := by
  rw [List.filter_append, List.filter_eq_self.mpr h.sell, List.filter_eq_nil_iff.mpr,
    List.nil_append]
  intro e he hsell
  have hbuy := h.buy e he
  rw [isBuy_of_isSell hsell] at hbuy
  cases hbuy

/-- The dashboard counts what was bought and what was sold. -/
theorem Delivery.totals (h : Delivery buys sells delivered) (host : Host)
    (hrow : List.Forall₂ Shows delivered row.fills) :
    (executionTotals host row "buy").qty = some (boughtQty buys) ∧
      (executionTotals host row "sell").qty =
        if sells = [] then none else some (soldQty sells) := by
  -- each side is counted once, however often a report was delivered
  have hcounted : ∀ side, Counted side (buys ++ sells)
      (row.fills.foldl (Totals.add host side) .new) := by
    intro side
    have hnew : Counted side [] .new := ⟨rfl, rfl, fun id => by simp [Totals.new]⟩
    have hall : Counted side (delivered.foldl known [])
        (row.fills.foldl (Totals.add host side) .new) :=
      hnew.foldl h.ids h.traded hrow h.again fun e he => absurd he List.not_mem_nil
    rwa [h.once] at hall
  constructor
  · have hbuys := hcounted "buy"
    have hqty : (row.fills.foldl (Totals.add host "buy") .new).qty = boughtQty buys := by
      rw [hbuys.qty]
      show (((buys ++ sells).filter ExecutionData.isBuy).map ExecutionData.qty).sum = _
      rw [h.filter_buys, boughtQty, List.filter_eq_self.mpr h.buy]
    have hsaw : (row.fills.foldl (Totals.add host "buy") .new).sawFill = true := by
      obtain ⟨e, he⟩ := List.exists_mem_of_ne_nil buys h.bought
      rw [hbuys.saw, List.any_eq_true]
      exact ⟨e, List.mem_append_left _ he, h.buy e he⟩
    show (if _ then some _ else none) = _
    rw [hsaw, hqty]
    rfl
  · have hsells := hcounted "sell"
    have hqty : (row.fills.foldl (Totals.add host "sell") .new).qty = soldQty sells := by
      rw [hsells.qty]
      show (((buys ++ sells).filter ExecutionData.isSell).map ExecutionData.qty).sum = _
      rw [h.filter_sells, soldQty, List.filter_eq_self.mpr h.sell]
    have hsaw : (row.fills.foldl (Totals.add host "sell") .new).sawFill = true ↔ sells ≠ [] := by
      rw [hsells.saw, List.any_eq_true]
      constructor
      · rintro ⟨e, he, hsell⟩ rfl
        rw [List.append_nil] at he
        have hbuy := h.buy e he
        rw [isBuy_of_isSell hsell] at hbuy
        cases hbuy
      · intro hne
        obtain ⟨e, he⟩ := List.exists_mem_of_ne_nil sells hne
        exact ⟨e, List.mem_append_right _ he, h.sell e he⟩
    show (if _ then some _ else none) = _
    rw [hqty]
    by_cases hnone : sells = []
    · rw [if_pos hnone, if_neg (mt hsaw.mp (not_not_intro hnone))]
    · rw [if_neg hnone, if_pos (hsaw.mpr hnone)]

/-! ## The desk's quantity -/

/-- A buy that carries a total, or a sell. -/
def Carries (execution : ExecutionData) : Prop :=
  0 < execution.qty ∧
    (execution.isBuy = true ∧ (∃ total, 0 < total ∧ execution.cumQty = some total) ∨
      execution.isSell = true)

/-- The fold of `Update` knows of a lot what came since its last buy. -/
theorem heldQty_carried {fills : List ExecutionData} (h : ∀ fill ∈ fills, Carries fill)
    (since : Option (Decimal × Decimal)) :
    Position.heldQty fills (since.map fun s => max (s.1 - s.2) 0) =
      (fills.foldl sinceBuy since).map fun s => max (s.1 - s.2) 0 := by
  induction fills generalizing since with
  | nil => rfl
  | cons fill rest ih =>
    have hrest := ih fun e he => h e (List.mem_cons_of_mem _ he)
    obtain ⟨hpos, ⟨hbuy, total, htotal, hcum⟩ | hsell⟩ := h fill List.mem_cons_self
    · rw [Position.heldQty_buy hbuy hpos htotal hcum, List.foldl_cons, sinceBuy, if_pos hbuy, hcum,
        ← hrest]
      simp [max_eq_left htotal.le]
    · rw [Position.heldQty_sell hsell hpos, List.foldl_cons, sinceBuy, isBuy_of_isSell hsell,
        if_neg nofun, ← hrest]
      cases since with
      | none => rfl
      | some s => exact congrArg (Position.heldQty rest) (congrArg some (floor_sub hpos.le))

/-- A buy among the reports of an order carries what was bought by then. -/
theorem cumQty_of_reports {total : Decimal} {fills : List ExecutionData}
    (h : Reports total fills) (htotal : 0 ≤ total) :
    ∀ fill ∈ fills, fill.isBuy = true → 0 < fill.qty →
      ∃ total, 0 < total ∧ fill.cumQty = some total := by
  induction h with
  | nil total => exact fun fill hmem => absurd hmem List.not_mem_nil
  | @buy total fill rest _ hqty hcum _ ih =>
    intro e he hebuy hpos
    rcases List.mem_cons.mp he with rfl | he
    · exact ⟨total + e.qty, add_pos_of_nonneg_of_pos htotal hpos, hcum⟩
    · exact ih (add_nonneg htotal hqty) e he hebuy hpos
  | @sell total fill rest hsell _ _ ih =>
    intro e he hebuy hpos
    rcases List.mem_cons.mp he with rfl | he
    · rw [isBuy_of_isSell hsell] at hebuy
      cases hebuy
    · exact ih htotal e he hebuy hpos

theorem Delivery.carries (h : Delivery buys sells delivered) :
    ∀ execution ∈ delivered, Carries execution := by
  intro e he
  have hmem := h.again e he
  have hpos := h.traded e hmem
  rcases List.mem_append.mp hmem with hbuy | hsell
  · exact ⟨hpos, .inl ⟨h.buy e hbuy, cumQty_of_reports h.running le_rfl e hbuy (h.buy e hbuy) hpos⟩⟩
  · exact ⟨hpos, .inr (h.sell e hsell)⟩

/-- What is known was delivered. -/
theorem mem_foldl_known {executions : List ExecutionData} {execution : ExecutionData}
    (h : execution ∈ delivered.foldl known executions) :
    execution ∈ executions ∨ execution ∈ delivered := by
  induction delivered generalizing executions with
  | nil => exact .inl h
  | cons e rest ih =>
    rcases ih h with hknown | hrest
    · unfold known at hknown
      split at hknown
      · exact .inl hknown
      · rcases List.mem_append.mp hknown with hold | hnew
        · exact .inl hold
        · exact .inr (List.mem_singleton.mp hnew ▸ List.mem_cons_self)
    · exact .inr (List.mem_cons_of_mem _ hrest)

/-- After a buy there is a last buy. -/
theorem sinceBuy_isSome (since : Option (Decimal × Decimal))
    (h : since.isSome = true ∨ ∃ execution ∈ delivered, execution.isBuy = true) :
    (delivered.foldl sinceBuy since).isSome = true := by
  induction delivered generalizing since with
  | nil =>
    rcases h with hsome | ⟨e, he, -⟩
    · exact hsome
    · exact absurd he List.not_mem_nil
  | cons execution rest ih =>
    refine ih _ ?_
    unfold sinceBuy
    split
    · exact .inl rfl
    · rename_i hnot
      rw [Option.isSome_map]
      refine h.imp_right ?_
      rintro ⟨e, he, hbuy⟩
      rcases List.mem_cons.mp he with rfl | he
      · exact absurd hbuy hnot
      · exact ⟨e, he, hbuy⟩

/-- The desk's quantity is what the last buy said was bought less what was sold since. -/
theorem Delivery.quantity (h : Delivery buys sells delivered) :
    ∃ since ∈ delivered.foldl sinceBuy none,
      Position.heldQty delivered none = some (max (since.1 - since.2) 0) := by
  have hsome : (delivered.foldl sinceBuy none).isSome = true := by
    obtain ⟨e, he⟩ := List.exists_mem_of_ne_nil buys h.bought
    have hknown : e ∈ delivered.foldl known [] := by
      rw [h.once]
      exact List.mem_append_left _ he
    exact sinceBuy_isSome none
      (.inr ⟨e, (mem_foldl_known hknown).resolve_left List.not_mem_nil, h.buy e he⟩)
  obtain ⟨since, hsince⟩ := Option.isSome_iff_exists.mp hsome
  refine ⟨since, hsince, ?_⟩
  have hheld := heldQty_carried h.carries none
  rw [hsince] at hheld
  exact hheld

/-- Something was bought. -/
theorem boughtQty_pos {fills : List ExecutionData}
    (h : ∀ fill ∈ fills, fill.isBuy = true ∧ 0 < fill.qty) :
    0 ≤ boughtQty fills ∧ (fills ≠ [] → 0 < boughtQty fills) := by
  induction fills with
  | nil => exact ⟨le_rfl, fun hne => absurd rfl hne⟩
  | cons fill rest ih =>
    obtain ⟨hbuy, hpos⟩ := h fill List.mem_cons_self
    have hrest := (ih fun e he => h e (List.mem_cons_of_mem _ he)).1
    rw [boughtQty_buy hbuy]
    have hsum := add_pos_of_pos_of_nonneg hpos hrest
    exact ⟨hsum.le, fun _ => hsum⟩

/-- A held quantity agrees with the dashboard where it is the positive part of what
was bought less what was sold. -/
theorem Delivery.agrees_iff (h : Delivery buys sells delivered)
    (hrow : List.Forall₂ Shows delivered row.fills) {held : Decimal} :
    Agrees (some held) host row ↔ held = max (boughtQty buys - soldQty sells) 0 := by
  obtain ⟨hbuys, hsells⟩ := h.totals host hrow
  have hbought : 0 < boughtQty buys := (boughtQty_pos fun e he =>
    ⟨h.buy e he, h.traded e (List.mem_append_left _ he)⟩).2 h.bought
  have hentry : (positionReadout host row).entryQty = some (boughtQty buys) := by
    show ((executionTotals host row "buy").qty <|> _) = _
    rw [hbuys]
    rfl
  have hexit : (positionReadout host row).exitQty.getD 0 = soldQty sells := by
    show (executionTotals host row "sell").qty.getD 0 = _
    rw [hsells]
    split
    · rename_i hnone
      rw [hnone]
      rfl
    · rfl
  have hflat : fullySold (executionTotals host row "buy") (executionTotals host row "sell") = true ↔
      boughtQty buys ≤ soldQty sells := by
    unfold fullySold
    rw [hbuys, hsells]
    split
    · rename_i bought sold hsome hsold
      split at hsold
      · cases hsold
      · cases hsome
        cases hsold
        exact decide_eq_true_iff
    · rename_i hnot
      split at hnot
      · rename_i hnone
        rw [hnone]
        exact iff_of_false nofun (not_le.mpr hbought)
      · exact absurd rfl (hnot _ _ rfl)
  unfold Agrees
  rw [← Bool.not_eq_true, hflat, hentry, hexit, Option.getD_some, Option.some_inj, Option.some_inj]
  -- sold out, or the difference is left
  rcases le_or_gt (boughtQty buys) (soldQty sells) with hle | hlt
  · rw [max_eq_right (by linarith)]
    exact ⟨fun hagrees => hagrees.1.mpr hle, fun hzero => ⟨iff_of_true hzero hle,
      fun hnot => absurd hle hnot⟩⟩
  · rw [max_eq_left (by linarith)]
    constructor
    · exact fun hagrees => hagrees.2 (not_le.mpr hlt)
    · rintro rfl
      refine ⟨iff_of_false (fun hzero => ?_) (not_le.mpr hlt), fun _ => rfl⟩
      linarith

end Delivery

/-- The positive parts of two numbers are the same. -/
theorem floor_eq_iff {a b : ℚ} : max a 0 = max b 0 ↔ a = b ∨ a ≤ 0 ∧ b ≤ 0 := by
  rcases le_or_gt a 0 with ha | ha <;> rcases le_or_gt b 0 with hb | hb
  · rw [max_eq_right ha, max_eq_right hb]
    exact iff_of_true rfl (.inr ⟨ha, hb⟩)
  · rw [max_eq_right ha, max_eq_left hb.le]
    refine iff_of_false hb.ne ?_
    rintro (rfl | ⟨-, hle⟩) <;> linarith
  · rw [max_eq_left ha.le, max_eq_right hb]
    refine iff_of_false ha.ne' ?_
    rintro (rfl | ⟨hle, -⟩) <;> linarith
  · rw [max_eq_left ha.le, max_eq_left hb.le]
    refine ⟨.inl, ?_⟩
    rintro (heq | ⟨hle, -⟩)
    · exact heq
    · linarith

/-- In every run of a new lot in which the reports of its buys and then of its sells
are delivered, any of them again later, the desk and the dashboard agree on when the
lot is flat and on what it holds until then if and only if the last buy delivered and
the sells since track what was bought and sold. -/
theorem flat_iff {buys sells delivered : List ExecutionData}
    (h : Delivery buys sells delivered) {position : Position} {calls : List Position.Call}
    (hnew : position.fills = []) (hcalls : Position.received calls = delivered) (host : Host)
    {row : Row} (hrow : List.Forall₂ Shows delivered row.fills) :
    Agrees (runFrom Position.step position calls).quantity host row ↔
      Tracks buys sells delivered := by
  have hquantity : (runFrom Position.step position calls).quantity =
      Position.heldQty delivered none := by
    obtain ⟨since, -, hheld⟩ := h.quantity
    rw [Position.quantity, (Position.runFrom_fills position calls).1, hnew, List.nil_append, hcalls,
      hheld]
  obtain ⟨since, hsince, hheld⟩ := h.quantity
  rw [hquantity, hheld, h.agrees_iff hrow, floor_eq_iff, sub_nonpos, sub_nonpos]
  constructor
  · intro hheld since' hsince'
    obtain rfl : since = since' := Option.mem_unique hsince hsince'
    exact hheld
  · exact fun htracks => htracks since hsince

/-! ## Reports that are delivered once -/

/-- After buys the total is what they report, and nothing is sold since. -/
theorem foldl_sinceBuy_buys {total : Decimal} {fills : List ExecutionData}
    (h : Reports total fills) (hbuy : ∀ fill ∈ fills, fill.isBuy = true) (hne : fills ≠ [])
    (since : Option (Decimal × Decimal)) :
    fills.foldl sinceBuy since = some (total + boughtQty fills, 0) := by
  induction h generalizing since with
  | nil total => exact absurd rfl hne
  | @buy total fill rest hfill _ hcum _ ih =>
    rw [List.foldl_cons, sinceBuy, if_pos hfill, hcum, boughtQty_buy hfill, ← add_assoc]
    by_cases hrest : rest = []
    · subst hrest
      simp [boughtQty]
    · exact ih (fun e he => hbuy e (List.mem_cons_of_mem _ he)) hrest _
  | @sell total fill rest hsell _ _ _ =>
    have hfill := hbuy fill List.mem_cons_self
    rw [isBuy_of_isSell hsell] at hfill
    cases hfill

/-- Sells add to what is sold since. -/
theorem foldl_sinceBuy_sells {fills : List ExecutionData}
    (hsell : ∀ fill ∈ fills, fill.isSell = true) (total sold : Decimal) :
    fills.foldl sinceBuy (some (total, sold)) = some (total, sold + soldQty fills) := by
  induction fills generalizing sold with
  | nil => simp [soldQty]
  | cons fill rest ih =>
    have hfill := hsell fill List.mem_cons_self
    rw [List.foldl_cons, sinceBuy, isBuy_of_isSell hfill, if_neg Bool.false_ne_true,
      Option.map_some, ih (fun e he => hsell e (List.mem_cons_of_mem _ he)), soldQty_sell hfill,
      add_assoc]

/-- Without a second delivery the desk and the dashboard track the same quantities. -/
theorem tracks_once {buys sells : List ExecutionData} (h : Delivery buys sells (buys ++ sells)) :
    Tracks buys sells (buys ++ sells) := by
  intro since hsince
  rw [List.foldl_append, foldl_sinceBuy_buys h.running h.buy h.bought,
    foldl_sinceBuy_sells h.sell] at hsince
  cases hsince
  exact .inl (by rw [zero_add, zero_add])

/-! ## A report that is delivered again -/

def sampleExecution (execID side : String) (qty : Decimal) (cumQty : Option Decimal) :
    ExecutionData where
  clientOrderID := "h" ++ side
  execID := execID
  symbol := "A/B"
  side := side
  lastQty := some qty
  lastPrice := some 100
  cumQty := cumQty
  avgPrice := some 100

/-- The fill that the desk publishes of an execution, with its decimals as numbers. -/
def fillOf (execution : ExecutionData) : Record
  | "side" => .str execution.side
  | "exec_id" => .str execution.execID
  | "last_qty" => (execution.lastQty.map Js.num).getD .null
  | "cum_qty" => (execution.cumQty.map Js.num).getD .null
  | "last_price" => (execution.lastPrice.map Js.num).getD .null
  | "avg_price" => (execution.avgPrice.map Js.num).getD .null
  | _ => .undefined

/-- The sample's fills show their executions. -/
theorem shows_fillOf (execution : ExecutionData) : Shows execution (fillOf execution) := by
  refine ⟨rfl, rfl, ?_⟩
  show decimal ((execution.lastQty.map Js.num).getD .null) = _
  cases execution.lastQty <;> rfl

theorem forall₂_shows (delivered : List ExecutionData) :
    List.Forall₂ Shows delivered (delivered.map fillOf) := by
  induction delivered with
  | nil => exact .nil
  | cons e rest ih => exact .cons (shows_fillOf e) ih

def sampleBuy : ExecutionData := sampleExecution "e1" "buy" 2 (some 2)

def sampleSell : ExecutionData := sampleExecution "e2" "sell" 1 (some 1)

def sampleRow (delivered : List ExecutionData) : Row :=
  ⟨"l1", "A/B", delivered.map fillOf, fun _ => .undefined⟩

def sampleHost : Host := ⟨some, fun _ => 0, fun _ => "", fun _ => ""⟩

def deliver (execution : ExecutionData) : Position.Call :=
  .apply (Desk.sampleEnv "h" 1 99) 1 execution

/-- One buy and one sell, delivered any number of times. -/
theorem sampleDelivery {delivered : List ExecutionData}
    (honce : delivered.foldl known [] = [sampleBuy] ++ [sampleSell])
    (hagain : ∀ execution ∈ delivered, execution = sampleBuy ∨ execution = sampleSell) :
    Delivery [sampleBuy] [sampleSell] delivered where
  once := honce
  again := by simpa using hagain
  ids := by simp [sampleBuy, sampleSell, sampleExecution]
  named := by simp [sampleBuy, sampleSell, sampleExecution]
  buy := by simpa using (by decide +kernel : sampleBuy.isBuy = true)
  sell := by simpa using (by decide +kernel : sampleSell.isSell = true)
  traded := by
    simp only [List.cons_append, List.nil_append, List.mem_cons, List.not_mem_nil, or_false]
    rintro execution (rfl | rfl) <;> decide +kernel
  running := .buy (by decide +kernel) (by decide +kernel) (by decide +kernel) (.nil _)
  bought := by simp

/-- The buy is delivered twice before its sell: both hold one unit. -/
theorem flat_iff_again :
    Agrees (runFrom Position.step (Position.new "A/B" "virtual" "p" "l1")
        [deliver sampleBuy, deliver sampleBuy, deliver sampleSell]).quantity sampleHost
      (sampleRow [sampleBuy, sampleBuy, sampleSell]) := by
  have hdelivery : Delivery [sampleBuy] [sampleSell] [sampleBuy, sampleBuy, sampleSell] :=
    sampleDelivery (by decide +kernel) (by simp)
  refine (flat_iff hdelivery rfl rfl sampleHost (forall₂_shows _)).mpr ?_
  intro since hsince
  obtain rfl : since = (2, 1) := Option.some.inj (hsince.symm.trans (by decide +kernel))
  exact .inl (by decide +kernel)

/-- The sell is delivered twice: the desk has the lot flat, and half of it is held. -/
theorem flat_apart :
    Delivery [sampleBuy] [sampleSell] [sampleBuy, sampleSell, sampleSell] ∧
    List.Forall₂ Shows [sampleBuy, sampleSell, sampleSell]
      (sampleRow [sampleBuy, sampleSell, sampleSell]).fills ∧
    ¬ Agrees (runFrom Position.step (Position.new "A/B" "virtual" "p" "l1")
        [deliver sampleBuy, deliver sampleSell, deliver sampleSell]).quantity sampleHost
      (sampleRow [sampleBuy, sampleSell, sampleSell]) := by
  have hzero : (runFrom Position.step (Position.new "A/B" "virtual" "p" "l1")
      [deliver sampleBuy, deliver sampleSell, deliver sampleSell]).quantity = some 0 := by
    decide +kernel
  have hopen : fullySold
      (executionTotals sampleHost (sampleRow [sampleBuy, sampleSell, sampleSell]) "buy")
      (executionTotals sampleHost (sampleRow [sampleBuy, sampleSell, sampleSell]) "sell") =
        false := by
    decide +kernel
  refine ⟨sampleDelivery (by decide +kernel) (by simp), forall₂_shows _, fun hagrees => ?_⟩
  have hflat := hagrees.1.mp hzero
  rw [hopen] at hflat
  cases hflat

end Symm.Dashboard
