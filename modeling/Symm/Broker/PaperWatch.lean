import Mathlib.Data.List.Nodup
import Symm.Broker.Paper
import Symm.Lib.Accounts
import Symm.Lib.Machine

/-!
# What the paper watchers report

`pollOpenFill` reports one trade of an order, the first that its loop over the history
meets, or a cancellation where it meets none. Its watch entry is deleted before the
report, so a later watch request for the id starts a second watcher, and a tick after
the deadline ends a watch without a report, also where the order left in time.

- `Settled`: the order left the open book in time and all its watchers are over;
- `Reported`: the reports add up to its trades, and no trade is reported twice;
- `Covered`: what the watchers were handed lets them;
- `reported_iff`: in every state of every run the two say the same of a settled order.

A watcher reads the whole history on each tick and remembers nothing of what it
reported, and no watcher knows of another. Which trade a loop over the history meets
first is up to the order of a map, which may be another one on each tick.
-/

namespace Symm.Broker

open Symm.Lib

namespace Paper

/-- The history a watcher has read. -/
def Phase.history : Phase → Option History
  | .waiting => none
  | .asking => none
  | .gone => none
  | .found history => some history
  | .freed history => some history
  | .ended history => history

@[simp] theorem Phase.history_ended (history : Option History) :
    (Phase.ended history).history = history := rfl

def Phase.isOver : Phase → Bool
  | .ended _ => true
  | _ => false

/-- The order was missing from the open book. -/
def Phase.pastBook : Phase → Bool
  | .gone => true
  | phase => phase.history.isSome

/-- The reports on an order. -/
def reportsOf (paper : Paper) (id : String) : List ExecutionRow :=
  paper.reports.filter (·.orderID = id)

/-- The trades of an order. -/
def tradesOf (paper : Paper) (id : String) : History := paper.ledger.trades.tradesOf id

/-- What `TradesHistory` handed to the watchers of an order. -/
def answers (paper : Paper) (id : String) : List History :=
  (paper.watchers.filter (·.watch.orderID = id)).filterMap (·.phase.history)

/-- The order left the open book before the deadline of a watch, and all watches of it
have ended. -/
structure Settled (paper : Paper) (id : String) : Prop where
  inTime : ∃ departure ∈ paper.ledger.left, departure.1 = id ∧
    ∃ w ∈ paper.watchers, w.watch.orderID = id ∧ departure.2 < w.deadline
  ended : ∀ w ∈ paper.watchers, w.watch.orderID = id → w.phase.isOver

/-- Every trade of the order has reached the desk once. -/
structure Reported (paper : Paper) (id : String) : Prop where
  quantity : ((paper.reportsOf id).map fun row => row.lastQty.getD 0).sum =
    ((paper.tradesOf id).map fun entry => entry.2.volume).sum
  canceled : paper.tradesOf id = [] →
    ∃ row ∈ paper.reportsOf id, row.execType = "canceled" ∧ row.orderStatus = "canceled"
  once : (((paper.reportsOf id).filter (·.execType = "trade")).map (·.execID)).Nodup

/-- Of an order without trades some watcher read the history; of any other as many did
as it has trades, and their loops met different trades of it first. -/
def Covered (paper : Paper) (id : String) : Prop :=
  (paper.tradesOf id = [] ∧ paper.answers id ≠ []) ∨
    (paper.tradesOf id ≠ [] ∧ (paper.answers id).length = (paper.tradesOf id).length ∧
      ((paper.answers id).map fun history => history.first id).Nodup)

/-! ## One report -/

@[simp] theorem report_orderID (watch : Watch) (history : History) :
    (watch.report history).orderID = watch.orderID := by
  unfold Watch.report
  cases history.first watch.orderID <;> rfl

theorem report_of_none {watch : Watch} {history : History}
    (h : history.first watch.orderID = none) :
    watch.report history = newExecutionFromMap watch.cancel := by
  rw [Watch.report, h]

theorem report_of_some {watch : Watch} {history : History} {entry : String × Trade}
    (h : history.first watch.orderID = some entry) :
    watch.report history = newExecutionFromMap (watch.fill entry.1 entry.2) := by
  rw [Watch.report, h]

@[simp] theorem cancel_execType (watch : Watch) :
    (newExecutionFromMap watch.cancel).execType = "canceled" := rfl

@[simp] theorem cancel_orderStatus (watch : Watch) :
    (newExecutionFromMap watch.cancel).orderStatus = "canceled" := rfl

@[simp] theorem cancel_lastQty (watch : Watch) :
    (newExecutionFromMap watch.cancel).lastQty = some 0 := rfl

@[simp] theorem fill_execType (watch : Watch) (tradeID : String) (trade : Trade) :
    (newExecutionFromMap (watch.fill tradeID trade)).execType = "trade" := rfl

@[simp] theorem fill_execID (watch : Watch) (tradeID : String) (trade : Trade) :
    (newExecutionFromMap (watch.fill tradeID trade)).execID = tradeID := rfl

@[simp] theorem fill_lastQty (watch : Watch) (tradeID : String) (trade : Trade) :
    (newExecutionFromMap (watch.fill tradeID trade)).lastQty = some trade.volume := rfl

/-- The loop stops at the first trade of the order that it meets. -/
theorem first_eq_head (history : History) (id : String) :
    history.first id = (history.tradesOf id).head? :=
  List.head?_filter.symm

/-! ## What a watcher knows -/

/-- The order stays out of the open book, and the trades of it that a watcher read are
those that the ledger has. -/
structure Watcher.Sound (ledger : Ledger) (w : Watcher) : Prop where
  out : w.phase.pastBook → w.watch.orderID ∉ ledger.opened
  read : ∀ history, w.phase.history = some history →
    (history.tradesOf w.watch.orderID).Perm (ledger.trades.tradesOf w.watch.orderID)

/-- A watcher that has neither missed the order nor read the history knows nothing. -/
theorem Watcher.Sound.of_early {ledger : Ledger} {w : Watcher} (h : w.phase.pastBook = false)
    (hread : w.phase.history = none) : w.Sound ledger where
  out hpast := by simp [h] at hpast
  read history hhistory := by simp [hread] at hhistory

/-- What the watchers know stays so where the ledger opens no order of theirs and adds
no trade to one that is out. -/
theorem Watcher.Sound.mono {ledger ledger' : Ledger} {w : Watcher} (h : w.Sound ledger)
    (hopened : w.watch.orderID ∈ ledger'.opened → w.watch.orderID ∈ ledger.opened)
    (htrades : w.watch.orderID ∉ ledger.opened →
      ledger'.trades.tradesOf w.watch.orderID = ledger.trades.tradesOf w.watch.orderID) :
    w.Sound ledger' where
  out hpast hin := h.out hpast (hopened hin)
  read history hhistory := by
    have hpast : w.phase.pastBook := by
      cases hphase : w.phase <;> simp_all [Phase.pastBook, Phase.history]
    rw [htrades (h.out hpast)]
    exact h.read history hhistory

theorem Watcher.Sound.place {ledger : Ledger} {w : Watcher} (h : w.Sound ledger) {id : String}
    (hid : w.watch.orderID ≠ id) : w.Sound (ledger.place id) := by
  refine h.mono (fun hin => ?_) fun _ => rfl
  rcases List.mem_append.mp hin with hin | hin
  · exact hin
  · exact absurd (List.mem_singleton.mp hin) hid

/-- A trade that is added leaves what a watcher has found in the ledger. -/
theorem Watcher.Sound.trade {ledger : Ledger} {w : Watcher} (h : w.Sound ledger)
    (tradeID : String) (trade : Trade) : w.Sound (ledger.trade tradeID trade) := by
  unfold Ledger.trade
  split
  · next hok =>
    refine h.mono id fun hout => ?_
    have hother : trade.orderID ≠ w.watch.orderID := by
      intro heq
      exact hout (heq ▸ hok.2)
    simp [History.tradesOf, List.filter_append, hother]
  · exact h

theorem Watcher.Sound.leave {ledger : Ledger} {w : Watcher} (h : w.Sound ledger)
    (id : String) (now : Time) : w.Sound (ledger.leave id now) := by
  unfold Ledger.leave
  split
  · exact h.mono (fun hin => (List.mem_filter.mp hin).1) fun _ => rfl
  · exact h

/-! ## The invariant -/

/-- What a watcher that is over has reported from. -/
def Watcher.delivered (w : Watcher) : Option (Watch × History) :=
  match w.phase with
  | .ended (some history) => some (w.watch, history)
  | _ => none

/-- What the watchers have reported from. -/
def delivered (paper : Paper) : List (Watch × History) :=
  paper.watchers.filterMap Watcher.delivered

structure Inv (paper : Paper) : Prop where
  sound : ∀ w ∈ paper.watchers, w.Sound paper.ledger
  reports : paper.reports.Perm (paper.delivered.map fun d => d.1.report d.2)

theorem inv_new : new.Inv where
  sound _ hw := by simp [new] at hw
  reports := .refl _

variable {paper : Paper}

/-- The ledger moves. -/
theorem Inv.ledger (h : paper.Inv) {ledger : Ledger}
    (hsound : ∀ w ∈ paper.watchers, w.Sound ledger) : Inv { paper with ledger } where
  sound := hsound
  reports := h.reports

theorem Inv.forget (h : paper.Inv) (id : String) : (paper.forget id).Inv where
  sound := h.sound
  reports := h.reports

/-- The watchers after one of them moved. -/
theorem sound_setPhase (h : paper.Inv) {i : ℕ} {w : Watcher} {phase : Phase}
    (hw : Watcher.Sound paper.ledger { w with phase }) :
    ∀ v ∈ (paper.setPhase i w phase).watchers, v.Sound paper.ledger := by
  intro v hv
  rcases List.mem_or_eq_of_mem_set hv with hv | rfl
  · exact h.sound v hv
  · exact hw

/-- A watcher moves without a report. -/
theorem Inv.setPhase (h : paper.Inv) {i : ℕ} {w : Watcher} {phase : Phase}
    (hi : paper.watchers[i]? = some w) (hw : Watcher.Sound paper.ledger { w with phase })
    (hsame : Watcher.delivered { w with phase } = w.delivered) :
    (paper.setPhase i w phase).Inv where
  sound := sound_setPhase h hw
  reports := by
    have hdelivered : (paper.setPhase i w phase).delivered = paper.delivered :=
      filterMap_set_same hi hsame
    rw [hdelivered]
    exact h.reports

/-- A row of an execution that is watched keeps the invariant. -/
theorem Inv.watchRow (h : paper.Inv) (row : ExecutionRow) : (paper.watchRow row).Inv := by
  unfold Paper.watchRow
  split
  · exact h
  · split
    · exact h
    · refine ⟨fun w hw => ?_, ?_⟩
      · rcases List.mem_append.mp hw with hw | hw
        · exact h.sound w hw
        · obtain rfl := List.mem_singleton.mp hw
          exact .of_early rfl rfl
      · show paper.reports.Perm (((paper.watchers ++ [_]).filterMap _).map _)
        rw [List.filterMap_append]
        exact (List.append_nil paper.delivered).symm ▸ h.reports

theorem Inv.watchOpenExecution (h : paper.Inv) (data : List ExecutionRow) :
    (paper.watchOpenExecution data).Inv := by
  unfold Paper.watchOpenExecution
  induction data generalizing paper with
  | nil => exact h
  | cons row data ih => exact ih (h.watchRow row)

theorem Inv.publishPlace (h : paper.Inv) (model : Model) : (paper.publishPlace model).Inv := by
  have hpublished : Inv { paper with acks := paper.acks ++ [newExecutionFromMap model] } :=
    ⟨h.sound, h.reports⟩
  unfold Paper.publishPlace
  dsimp only
  split
  · exact hpublished.watchOpenExecution _
  · exact hpublished

theorem Inv.resumeOpenOrder (h : paper.Inv) (orderID clientOrderID pair side : String) :
    (paper.resumeOpenOrder orderID clientOrderID pair side).Inv := by
  unfold Paper.resumeOpenOrder
  split
  · exact h
  · exact h.watchOpenExecution _

section Watcher

variable {i : ℕ} {w : Watcher}

/-- A turn of a watcher keeps the invariant: it asks, or gives up at its deadline. -/
theorem Inv.tick (h : paper.Inv) (hi : paper.watchers[i]? = some w) : (paper.tick i w).Inv := by
  unfold Paper.tick
  split
  · next hphase =>
    have hw : w.delivered = none := by simp [Watcher.delivered, hphase]
    split
    · exact (h.forget _).setPhase hi (.of_early rfl rfl) hw.symm
    · exact h.setPhase hi (.of_early rfl rfl) hw.symm
  · exact h

/-- So does the answer about the open orders. -/
theorem Inv.openOrders (h : paper.Inv) (hi : paper.watchers[i]? = some w) :
    (paper.openOrders i w).Inv := by
  unfold Paper.openOrders
  split
  · next hphase =>
    have hw : w.delivered = none := by simp [Watcher.delivered, hphase]
    split
    · exact h.setPhase hi (.of_early rfl rfl) hw.symm
    · next hout =>
      refine h.setPhase hi ⟨fun _ => hout, fun history hhistory => ?_⟩ hw.symm
      cases hhistory
  · exact h

/-- And so do the trades of the ledger, in whatever order they are met. -/
theorem Inv.tradesHistory (h : paper.Inv) (hi : paper.watchers[i]? = some w)
    (history : History) : (paper.tradesHistory i history w).Inv := by
  unfold Paper.tradesHistory
  split
  · next hphase =>
    have hw : w.delivered = none := by simp [Watcher.delivered, hphase]
    have hout := (h.sound w (List.mem_of_getElem? hi)).out (by rw [hphase]; rfl)
    split
    · next hperm =>
      refine h.setPhase hi ⟨fun _ => hout, fun read hread => ?_⟩ hw.symm
      obtain rfl : history = read := Option.some.inj hread
      exact hperm.filter _
    · exact h
  · exact h

/-- A call that fails leaves the watcher to its next turn. -/
theorem Inv.callFailed (h : paper.Inv) (hi : paper.watchers[i]? = some w) :
    (paper.callFailed i w).Inv := by
  unfold Paper.callFailed
  split
  · next hphase =>
    have hw : w.delivered = none := by simp [Watcher.delivered, hphase]
    exact h.setPhase hi (.of_early rfl rfl) hw.symm
  · next hphase =>
    have hw : w.delivered = none := by simp [Watcher.delivered, hphase]
    exact h.setPhase hi (.of_early rfl rfl) hw.symm
  · exact h

/-- A watcher that has read the history knows the same in any later phase. -/
theorem Watcher.Sound.later {ledger : Ledger} (h : w.Sound ledger) {history : History}
    {phase : Phase} (hbefore : w.phase.history = some history)
    (hafter : phase.history = some history) (hpast : w.phase.pastBook) :
    Watcher.Sound ledger { w with phase } where
  out _ := h.out hpast
  read read hread := by
    obtain rfl : history = read := Option.some.inj (hafter.symm.trans hread)
    exact h.read history hbefore

theorem Inv.delete (h : paper.Inv) (hi : paper.watchers[i]? = some w) :
    (paper.delete i w).Inv := by
  unfold Paper.delete
  split
  · next history hphase =>
    have hw : w.delivered = none := by simp [Watcher.delivered, hphase]
    have hread : w.phase.history = some history := by rw [hphase, Phase.history]
    have hpast : w.phase.pastBook := by rw [hphase]; rfl
    have hsound := h.sound w (List.mem_of_getElem? hi)
    exact (h.forget _).setPhase hi (hsound.later hread rfl hpast) hw.symm
  · exact h

/-- The one step that reports. -/
theorem Inv.publish (h : paper.Inv) (hi : paper.watchers[i]? = some w) :
    (paper.publish i w).Inv := by
  unfold Paper.publish
  split
  · next history hphase =>
    have hw : w.delivered = none := by simp [Watcher.delivered, hphase]
    have hread : w.phase.history = some history := by rw [hphase, Phase.history]
    have hpast : w.phase.pastBook := by rw [hphase]; rfl
    have hsound := h.sound w (List.mem_of_getElem? hi)
    have hmore : ((paper.watchers.set i { w with phase := .ended (some history) }).filterMap
        Watcher.delivered).Perm (paper.delivered ++ [(w.watch, history)]) :=
      filterMap_set_done hi hw rfl
    refine ⟨sound_setPhase h (hsound.later hread rfl hpast), ?_⟩
    refine ((h.reports.append_right _).trans ?_).trans (hmore.map _).symm
    rw [List.map_append]
    exact .refl _
  · exact h

end Watcher

/-- An event of a watcher keeps the invariant if it does so where the watcher is there. -/
theorem Inv.onWatcher (h : paper.Inv) {i : ℕ} {f : Watcher → Paper}
    (hf : ∀ w, paper.watchers[i]? = some w → (f w).Inv) : (paper.onWatcher i f).Inv := by
  unfold Paper.onWatcher
  split
  · next w hi => exact hf w hi
  · exact h

/-- Every step of the venue, of a request and of a watcher keeps the invariant. -/
theorem Inv.step (h : paper.Inv) (e : Event) : (paper.step e).Inv := by
  cases e with
  | place id =>
    unfold Paper.step
    dsimp only
    split
    · next hfresh => exact h.ledger fun w hw => (h.sound w hw).place (hfresh.2 w hw)
    · exact h
  | trade tradeID trade => exact h.ledger fun w hw => (h.sound w hw).trade tradeID trade
  | leave id => exact h.ledger fun w hw => (h.sound w hw).leave id paper.now
  | elapse time => exact ⟨h.sound, h.reports⟩
  | publishPlace model => exact h.publishPlace model
  | resumeOpenOrder orderID clientOrderID pair side =>
    exact h.resumeOpenOrder orderID clientOrderID pair side
  | tick i => exact h.onWatcher fun w hi => h.tick hi
  | openOrders i => exact h.onWatcher fun w hi => h.openOrders hi
  | tradesHistory i history => exact h.onWatcher fun w hi => h.tradesHistory hi history
  | callFailed i => exact h.onWatcher fun w hi => h.callFailed hi
  | delete i => exact h.onWatcher fun w hi => h.delete hi
  | publish i => exact h.onWatcher fun w hi => h.publish hi

/-! ## What is reported -/

/-- What the watchers of an order have reported from. -/
def deliveredOf (paper : Paper) (id : String) : List (Watch × History) :=
  paper.delivered.filter (·.1.orderID = id)

/-- Where the watchers of an order are over, all that they read is reported from. -/
theorem answers_eq {id : String} {watchers : List Watcher}
    (h : ∀ w ∈ watchers, w.watch.orderID = id → w.phase.isOver) :
    (watchers.filter (·.watch.orderID = id)).filterMap (·.phase.history) =
      ((watchers.filterMap Watcher.delivered).filter (·.1.orderID = id)).map Prod.snd := by
  induction watchers with
  | nil => rfl
  | cons w rest ih =>
    obtain ⟨hw, hrest⟩ := List.forall_mem_cons.mp h
    have hrest := ih hrest
    by_cases hid : w.watch.orderID = id
    · cases hphase : w.phase with
      | ended history =>
        cases history with
        | none => simp [hid, hphase, Watcher.delivered, hrest]
        | some history => simp [hid, hphase, Watcher.delivered, hrest]
      | _ => simp [hphase, Phase.isOver] at hw; contradiction
    · cases hdelivered : w.delivered with
      | none => simp [hid, hdelivered, hrest]
      | some delivered =>
        have hother : delivered.1 = w.watch := by
          unfold Watcher.delivered at hdelivered
          split at hdelivered
          · cases hdelivered
            rfl
          · cases hdelivered
        simp [hid, hdelivered, hother, hrest]

theorem Settled.answers_eq {id : String} (h : paper.Settled id) :
    paper.answers id = (paper.deliveredOf id).map Prod.snd :=
  Paper.answers_eq h.ended

/-- The reports on an order are made of what its watchers read. -/
theorem Inv.reportsOf (h : paper.Inv) (id : String) :
    (paper.reportsOf id).Perm ((paper.deliveredOf id).map fun d => d.1.report d.2) := by
  have hfilter := h.reports.filter (·.orderID = id)
  rw [List.filter_map] at hfilter
  have hsame : (fun row : ExecutionRow => decide (row.orderID = id)) ∘
      (fun d : Watch × History => d.1.report d.2) = fun d => decide (d.1.orderID = id) := by
    funext d
    simp
  rw [hsame] at hfilter
  exact hfilter

/-- A watcher that is over read the trades of its order. -/
theorem Inv.delivered_perm (h : paper.Inv) {id : String} {d : Watch × History}
    (hd : d ∈ paper.deliveredOf id) :
    d.1.orderID = id ∧ (d.2.tradesOf id).Perm (paper.tradesOf id) := by
  obtain ⟨hd, hid⟩ := List.mem_filter.mp hd
  obtain ⟨w, hw, hdelivered⟩ := List.mem_filterMap.mp hd
  have hid : d.1.orderID = id := of_decide_eq_true hid
  refine ⟨hid, ?_⟩
  unfold Watcher.delivered at hdelivered
  split at hdelivered
  · next history hphase =>
    cases hdelivered
    subst hid
    refine (h.sound w hw).read history ?_
    rw [hphase]
    rfl
  · cases hdelivered

/-- Where an order has no trade, each report is a cancellation. -/
theorem report_of_untraded {id : String} {d : Watch × History} (hid : d.1.orderID = id)
    (hperm : (d.2.tradesOf id).Perm []) :
    d.1.report d.2 = newExecutionFromMap d.1.cancel := by
  refine report_of_none ?_
  rw [first_eq_head, hid, hperm.eq_nil]
  rfl

/-- An order without a trade is reported if anything is. -/
theorem reported_iff_of_untraded (h : paper.Inv) {id : String}
    (hnone : paper.tradesOf id = []) : paper.Reported id ↔ paper.deliveredOf id ≠ [] := by
  have hreports := h.reportsOf id
  -- without a trade every report is that of a cancel
  have hcanceled : ∀ row ∈ paper.reportsOf id,
      ∃ watch : Watch, row = newExecutionFromMap watch.cancel := by
    intro row hrow
    obtain ⟨d, hd, rfl⟩ := List.mem_map.mp (hreports.subset hrow)
    obtain ⟨hid, hperm⟩ := h.delivered_perm hd
    exact ⟨d.1, report_of_untraded hid (hnone ▸ hperm)⟩
  have hempty : paper.reportsOf id = [] ↔ paper.deliveredOf id = [] := by
    rw [← List.map_eq_nil_iff (f := fun d : Watch × History => d.1.report d.2)]
    constructor
    · intro heq
      exact (heq ▸ hreports).nil_eq.symm
    · intro heq
      exact (heq ▸ hreports).eq_nil
  rw [Ne, ← hempty]
  constructor
  · intro hreported hnil
    obtain ⟨row, hrow, -⟩ := hreported.canceled hnone
    rw [hnil] at hrow
    cases hrow
  · intro hsome
    refine ⟨?_, fun _ => ?_, ?_⟩
    · rw [hnone]
      refine List.sum_eq_zero fun x hx => ?_
      obtain ⟨row, hrow, rfl⟩ := List.mem_map.mp hx
      obtain ⟨watch, rfl⟩ := hcanceled row hrow
      rfl
    · obtain ⟨row, hrow⟩ := List.exists_mem_of_ne_nil _ hsome
      obtain ⟨watch, rfl⟩ := hcanceled row hrow
      exact ⟨_, hrow, rfl, rfl⟩
    · have hnotrade : (paper.reportsOf id).filter (·.execType = "trade") = [] := by
        refine List.filter_eq_nil_iff.mpr fun row hrow => ?_
        obtain ⟨watch, rfl⟩ := hcanceled row hrow
        simp
      rw [hnotrade]
      exact List.nodup_nil

/-- What one watcher reports of an order with trades. -/
structure Picks (d : Watch × History) (entry : String × Trade) : Prop where
  first : d.2.first d.1.orderID = some entry
  quantity : (d.1.report d.2).lastQty.getD 0 = entry.2.volume
  isTrade : (d.1.report d.2).execType = "trade"
  execID : (d.1.report d.2).execID = entry.1

/-- What is delivered for a traded order is the first of its trades in the order met. -/
theorem Inv.picks (h : paper.Inv) {id : String} (hsome : paper.tradesOf id ≠ [])
    {d : Watch × History} (hd : d ∈ paper.deliveredOf id) :
    ∃ entry ∈ paper.tradesOf id, Picks d entry := by
  obtain ⟨rfl, hperm⟩ := h.delivered_perm hd
  cases htrades : d.2.tradesOf d.1.orderID with
  | nil =>
    rw [htrades] at hperm
    exact absurd hperm.nil_eq.symm hsome
  | cons entry rest =>
    have hfirst : d.2.first d.1.orderID = some entry := by
      rw [first_eq_head, htrades]
      rfl
    have hreport := report_of_some hfirst
    refine ⟨entry, ?_, hfirst, ?_, ?_, ?_⟩
    · rw [htrades] at hperm
      exact hperm.subset List.mem_cons_self
    · rw [hreport, fill_lastQty]
      rfl
    · rw [hreport, fill_execType]
    · rw [hreport, fill_execID]

/-- The picks of a list of watchers, with what their reports say of them. -/
theorem exists_picks {id : String} {trades : History} {ds : List (Watch × History)}
    (h : ∀ d ∈ ds, d.1.orderID = id ∧ ∃ entry ∈ trades, Picks d entry) :
    ∃ picks : History, picks ⊆ trades ∧
      (ds.map fun d => d.2.first id) = picks.map some ∧
      ((ds.map fun d => d.1.report d.2).map fun row => row.lastQty.getD 0) =
        (picks.map fun entry => entry.2.volume) ∧
      (((ds.map fun d => d.1.report d.2).filter (·.execType = "trade")).map (·.execID)) =
        picks.map Prod.fst := by
  induction ds with
  | nil => exact ⟨[], List.nil_subset _, rfl, rfl, rfl⟩
  | cons d ds ih =>
    obtain ⟨⟨rfl, entry, hentry, hpick⟩, hrest⟩ := List.forall_mem_cons.mp h
    obtain ⟨picks, hsub, hfirst, hquantity, hexecID⟩ := ih hrest
    refine ⟨entry :: picks, List.cons_subset.mpr ⟨hentry, hsub⟩, ?_, ?_, ?_⟩
    · rw [List.map_cons, hfirst, hpick.first]
      rfl
    · rw [List.map_cons, List.map_cons, hquantity, hpick.quantity]
      rfl
    · rw [List.map_cons, List.filter_cons_of_pos (by simpa using hpick.isTrade), List.map_cons,
        hexecID, hpick.execID]
      rfl

/-- Every trade of an order is reported once exactly if there are as many reports as trades
and each picked another trade. -/
theorem reported_iff_of_traded (h : paper.Inv) {id : String} (hsome : paper.tradesOf id ≠ []) :
    paper.Reported id ↔ (paper.deliveredOf id).length = (paper.tradesOf id).length ∧
      ((paper.deliveredOf id).map fun d => d.2.first id).Nodup := by
  -- what was delivered, as trades of the order
  obtain ⟨picks, hsub, hfirst, hquantity, hexecID⟩ := exists_picks fun d hd =>
    ⟨(h.delivered_perm hd).1, h.picks hsome hd⟩
  have hreports := h.reportsOf id
  have hquantities := (hreports.map fun row => row.lastQty.getD 0).sum_eq
  have hexecIDs := ((hreports.filter (·.execType = "trade")).map (·.execID)).nodup_iff
  have hlength : (paper.deliveredOf id).length = picks.length := by
    have := congrArg List.length hfirst
    simpa using this
  have hdistinct : ((paper.tradesOf id).map Prod.fst).Nodup :=
    paper.ledger.distinct.sublist (List.filter_sublist.map _)
  -- trades are told apart by their ids
  have hids : (picks.map Prod.fst).Nodup ↔ picks.Nodup := by
    refine ⟨List.Nodup.of_map _, fun hnodup => hnodup.map_on fun a ha b hb heq => ?_⟩
    exact List.inj_on_of_nodup_map hdistinct (hsub ha) (hsub hb) heq
  have hpos : ∀ entry ∈ paper.tradesOf id, 0 < entry.2.volume := fun entry _ =>
    entry.2.volume_pos
  rw [hfirst, List.nodup_map_iff (Option.some_injective _), hlength]
  rw [hquantity] at hquantities
  rw [hexecID, hids] at hexecIDs
  constructor
  -- volumes are positive, so a sum that is complete misses no trade
  · intro hreported
    have hnodup : picks.Nodup := hexecIDs.mp hreported.once
    have hsum := hquantities.symm.trans hreported.quantity
    exact ⟨(sum_eq_iff_length_eq (List.subperm_of_subset hnodup hsub) hpos).mp hsum, hnodup⟩
  · rintro ⟨hall, hnodup⟩
    refine ⟨?_, fun hnone => absurd hnone hsome, hexecIDs.mpr hnodup⟩
    rw [hquantities]
    exact (sum_eq_iff_length_eq (List.subperm_of_subset hnodup hsub) hpos).mpr hall

/-- Once all is settled, an order is reported exactly if its watchers cover its trades. -/
theorem Inv.reported_iff_covered (h : paper.Inv) {id : String} (hsettled : paper.Settled id) :
    paper.Reported id ↔ paper.Covered id := by
  unfold Covered
  rw [hsettled.answers_eq, List.map_map, List.length_map, Ne, List.map_eq_nil_iff]
  by_cases hnone : paper.tradesOf id = []
  · rw [reported_iff_of_untraded h hnone]
    simp [hnone]
  · rw [reported_iff_of_traded h hnone]
    simp [hnone, Function.comp_def]

/-- The reports of a settled order are right exactly where its watchers were handed what
covers its trades, in every state of every run. -/
theorem reported_iff (events : List Event) :
    Everywhere step (fun paper => ∀ id, paper.Settled id →
      (paper.Reported id ↔ paper.Covered id)) new events := by
  have hcovered : ∀ paper : Paper, paper.Inv → ∀ id, paper.Settled id →
      (paper.Reported id ↔ paper.Covered id) := fun _ h _ => h.reported_iff_covered
  exact everywhere_of_always (fun _ e h => h.step e) hcovered inv_new events

/-! ## One watch to its end -/

/-- The watcher of number `i` is now `w`, and nothing was reported. -/
structure Moved (paper paper' : Paper) (i : ℕ) (w : Watcher) : Prop where
  watcher : paper'.watchers[i]? = some w
  ledger : paper'.ledger = paper.ledger
  reports : paper'.reports = paper.reports

theorem setPhase_self {i : ℕ} {v w : Watcher} (hi : paper.watchers[i]? = some v) (phase : Phase) :
    (paper.setPhase i w phase).watchers[i]? = some { w with phase } := by
  obtain ⟨hlt, -⟩ := List.getElem?_eq_some_iff.mp hi
  exact List.getElem?_set_self hlt

theorem onWatcher_of_some {i : ℕ} {w : Watcher} (hi : paper.watchers[i]? = some w)
    (f : Watcher → Paper) : paper.onWatcher i f = f w := by
  rw [onWatcher, hi]

section Ends

variable {i : ℕ} {w : Watcher} (hi : paper.watchers[i]? = some w)
include hi

/-- In time, a watcher that waits goes on to ask. -/
theorem moved_tick (hphase : w.phase = .waiting) (hintime : paper.now ≤ w.deadline) :
    Moved paper (paper.step (.tick i)) i { w with phase := .asking } := by
  have hstep : paper.step (.tick i) = paper.setPhase i w .asking := by
    show paper.onWatcher i (paper.tick i) = _
    rw [onWatcher_of_some hi, tick, hphase]
    exact if_neg (Nat.not_lt.mpr hintime)
  rw [hstep]
  exact ⟨setPhase_self hi .asking, rfl, rfl⟩

/-- A watcher whose order has left the open ones goes on to the history. -/
theorem moved_openOrders (hphase : w.phase = .asking)
    (hout : w.watch.orderID ∉ paper.ledger.opened) :
    Moved paper (paper.step (.openOrders i)) i { w with phase := .gone } := by
  have hstep : paper.step (.openOrders i) = paper.setPhase i w .gone := by
    show paper.onWatcher i (paper.openOrders i) = _
    rw [onWatcher_of_some hi, openOrders, hphase]
    exact if_neg hout
  rw [hstep]
  exact ⟨setPhase_self hi .gone, rfl, rfl⟩

/-- With the history at hand, it has found what it reports from. -/
theorem moved_tradesHistory (hphase : w.phase = .gone) {history : History}
    (hperm : history.Perm paper.ledger.trades) :
    Moved paper (paper.step (.tradesHistory i history)) i { w with phase := .found history } := by
  have hstep : paper.step (.tradesHistory i history) = paper.setPhase i w (.found history) := by
    show paper.onWatcher i (paper.tradesHistory i history) = _
    rw [onWatcher_of_some hi, tradesHistory, hphase]
    exact if_pos hperm
  rw [hstep]
  exact ⟨setPhase_self hi _, rfl, rfl⟩

theorem moved_delete {history : History} (hphase : w.phase = .found history) :
    Moved paper (paper.step (.delete i)) i { w with phase := .freed history } := by
  have hstep : paper.step (.delete i) =
      (paper.forget w.watch.orderID).setPhase i w (.freed history) := by
    show paper.onWatcher i (paper.delete i) = _
    rw [onWatcher_of_some hi, delete, hphase]
  have hforgotten : (paper.forget w.watch.orderID).watchers[i]? = some w := hi
  rw [hstep]
  exact ⟨setPhase_self hforgotten _, rfl, rfl⟩

/-- Publishing adds the report of the watch. -/
theorem publish_reports {history : History} (hphase : w.phase = .freed history) :
    (paper.step (.publish i)).reports = paper.reports ++ [w.watch.report history] := by
  show (paper.onWatcher i (paper.publish i)).reports = _
  rw [onWatcher_of_some hi, publish, hphase]
  rfl

/-- One tick in time is enough: where both calls answer, the watcher of an order that is
out goes through to its report. -/
theorem watch_ends (hwaiting : w.phase = .waiting) (hintime : paper.now ≤ w.deadline)
    (hout : w.watch.orderID ∉ paper.ledger.opened) {history : History}
    (hperm : history.Perm paper.ledger.trades) :
    (runFrom step paper [.tick i, .openOrders i, .tradesHistory i history, .delete i,
      .publish i]).reports = paper.reports ++ [w.watch.report history] := by
  have hasking := moved_tick hi hwaiting hintime
  have hgone := moved_openOrders hasking.watcher rfl (hasking.ledger ▸ hout)
  have hfound := moved_tradesHistory hgone.watcher rfl
    (hgone.ledger.trans hasking.ledger ▸ hperm)
  have hfreed := moved_delete hfound.watcher rfl
  simp only [runFrom_cons, runFrom_nil]
  rw [publish_reports hfreed.watcher rfl, hfreed.reports, hfound.reports, hgone.reports,
    hasking.reports]

end Ends

/-! ## Two trades, one report -/

private def lost : List Event :=
  let first : Trade := ⟨"O1", "X/USD", "buy", 2, 2, 0, 1, by norm_num⟩
  let second : Trade := ⟨"O1", "X/USD", "buy", 2, 6, 0, 3, by norm_num⟩
  [.place "O1", .resumeOpenOrder "O1" "c1" "X/USD" "buy",
    .trade "T1" first, .trade "T2" second, .leave "O1",
    .tick 0, .openOrders 0, .tradesHistory 0 [("T2", second), ("T1", first)],
    .delete 0, .publish 0]

/-- An order that leaves with two trades is reported with one of them. -/
theorem two_trades_one_report : ¬ ∀ events, Everywhere step
    (fun paper => ∀ id, paper.Settled id → paper.Reported id) new events := by
  intro h
  have hreported := (h lost).last "O1" ⟨by decide, by decide⟩
  have hquantity := hreported.quantity
  revert hquantity
  decide +kernel

end Paper

end Symm.Broker
