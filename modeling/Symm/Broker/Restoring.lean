import Symm.Broker.Sampling

/-!
# Restored lots

`Cache.Restore` decodes a lot and leaves its price and its settle callback unset.
Marks then neither reprice the lot nor settle it: its stop keeps judging the
return that was stored. The theorem says which marks a lot and its restored twin
answer alike.

A stop that is shown the return it saw last keeps its floor, whatever the pace: the
breath of a mark is a share of a move, and there is none. So the twin answers as the lot
does as long as the marks leave the return where it was, and not beyond.

- `Twinned`: one stop, one return, and a tier in which the twin is open;
- `Unmoved`: the mark does not change the return of the lot;
- `restored_managed_iff`: the two agree along a run exactly if every mark leaves it
  unmoved.
-/

namespace Symm.Broker

open Symm.System Symm.Lib

/-! ## The stop on an unchanged return -/

/-- A return the stop has just seen moves no floor, at any pace. -/
theorem Stoploss.update_still {stop : Stoploss} {pct : ℚ} (h : stop.currentPnLPct = pct)
    (pace pace' : ℚ) : stop.update pct pace = stop.update pct pace' := by
  have hmark : stop.mark pct pace = stop.mark pct pace' := by
    unfold mark breathe
    dsimp only
    rw [h, sub_self, if_pos rfl, if_pos rfl]
  unfold update
  rw [hmark]

/-- A stop records the return it judges, unless it has triggered. -/
theorem Stoploss.update_current (stop : Stoploss) (pct pace : ℚ) :
    (stop.update pct pace).triggered = true ∨ (stop.update pct pace).currentPnLPct = pct := by
  have hmark : (stop.mark pct pace).currentPnLPct = pct := by
    unfold mark breathe
    dsimp only
    split <;> (try split) <;> (try split) <;> (try split) <;> rfl
  unfold update triggered
  split
  · rename_i h
    exact .inl (decide_eq_true h)
  · dsimp only
    split
    · exact .inl rfl
    · split
      · exact .inr hmark
      · exact .inr hmark

namespace Position

/-- A lot that is open and has a known return has a stop that last judged it. -/
def Synced (p : Position) : Prop :=
  p.closedAt = none → ∀ pct, p.pnlPct = some pct →
    ∃ stop, p.stoploss = some stop ∧ stop.currentPnLPct = pct

/-- An open lot with a stop and a return has a live stop. -/
theorem liveStop_of {p : Position} {stop : Stoploss} {pct : ℚ} (hopen : p.closedAt = none)
    (hstop : p.stoploss = some stop) (hpct : p.pnlPct = some pct) :
    p.liveStop = some (stop, pct) := by
  unfold liveStop
  rw [hopen, hstop, hpct]
  rfl

/-- A mark leaves a known return with a stop. -/
theorem Synced.armed {p : Position} (h : p.Synced) (hopen : p.closedAt = none) (env : Env)
    (mark : Option Decimal) {pct : ℚ} (hpct : (p.marked env mark).pnlPct = some pct) :
    (p.marked env mark).stoploss.isSome := by
  cases hprice : p.hasPrice with
  | true =>
    obtain ⟨-, hread, harmed⟩ := marked_result env mark hprice
    refine harmed hopen ?_
    rw [← hread, hpct]
    rfl
  | false =>
    have hmarked : p.marked env mark = p.setMark mark := by
      unfold marked
      rw [hprice]
      rfl
    rw [hmarked] at hpct ⊢
    obtain ⟨stop, hstop, -⟩ := h hopen pct hpct
    change p.stoploss.isSome
    rw [hstop]
    rfl

/-- A mark keeps the stop in step with the return. -/
theorem Synced.update {p : Position} (h : p.Synced) (env : Env) (pace : ℚ)
    (mark : Option Decimal) : (p.update env pace mark).1.Synced := by
  intro hopen' pct hpct
  have hopen : p.closedAt = none := by
    by_contra hc
    have hstays := ((lotCall_update env pace mark).stays p (Option.isSome_iff_ne_none.mpr hc)).1
    rw [hopen'] at hstays
    cases hstays
  have hm := (marked_spec env mark p).2.1
  rw [(update_result env pace mark p).2.1] at hpct
  obtain ⟨stop, hstop⟩ := Option.isSome_iff_exists.mp (h.armed hopen env mark hpct)
  have hlive := liveStop_of (hm.trans hopen) hstop hpct
  rcases update_cases env pace mark p with ⟨hnone, -⟩ |
    ⟨stop', pct', hlive', ⟨-, heq⟩ | ⟨hquiet, heq⟩⟩
  · rw [hlive] at hnone
    cases hnone
  · -- a stop that fires closes the lot
    rw [heq] at hopen'
    cases hopen'
  · rw [hlive] at hlive'
    obtain ⟨rfl, rfl⟩ := Prod.mk.inj (Option.some.inj hlive')
    rw [heq]
    exact ⟨_, rfl, (stop.update_current pct pace).resolve_left (by simp [hquiet])⟩

/-- So does a report. -/
theorem Synced.apply {p : Position} (h : p.Synced) (env : Env) (pace : ℚ)
    (execution : ExecutionData) : (p.apply env pace execution).1.Synced := by
  have hstamp : ((p.addFill execution).stampClose env).Synced := by
    unfold stampClose
    split
    · exact fun hopen => absurd hopen (Option.some_ne_none _)
    · exact h
  unfold Position.apply
  split
  · exact h
  · exact hstamp.update env pace _

/-- What decides what a lot does at a mark that finds no new return. -/
structure Twins (p r : Position) : Prop where
  pnl : r.pnl = p.pnl
  pnlPct : r.pnlPct = p.pnlPct
  stoploss : r.stoploss = p.stoploss
  closedAt : r.closedAt = p.closedAt

theorem Twins.symm {p r : Position} (h : Twins p r) : Twins r p :=
  ⟨h.pnl.symm, h.pnlPct.symm, h.stoploss.symm, h.closedAt.symm⟩

theorem Twins.trans {p q r : Position} (h : Twins p q) (h' : Twins q r) : Twins p r :=
  ⟨h'.pnl.trans h.pnl, h'.pnlPct.trans h.pnlPct, h'.stoploss.trans h.stoploss,
    h'.closedAt.trans h.closedAt⟩

/-- A twin of a lot whose stop is in step has one too. -/
theorem Synced.twin {p r : Position} (h : p.Synced) (ht : Twins p r) : r.Synced := by
  intro hopen pct hpct
  rw [ht.stoploss]
  exact h (ht.closedAt.symm.trans hopen) pct (ht.pnlPct.symm.trans hpct)

/-- A mark that finds the recorded return changes none of it. -/
theorem twins_marked {p : Position} (h : p.Synced) (hopen : p.closedAt = none) {env : Env}
    (hrepeats : p.hasPrice = true → p.Repeats env) (mark : Option Decimal) :
    Twins p (p.marked env mark) := by
  unfold marked
  split
  · rename_i hprice
    obtain ⟨hpnl, hpct, hstop⟩ := readPnL_reading env mark p
    obtain ⟨hpnl', hpct'⟩ := (readPnL_same_iff env p).mpr (hrepeats hprice)
    have hclosed : (((p.setMark mark).readExit env).readPnL env).closedAt = p.closedAt :=
      (readPnL_spec env _).2.1
    show Twins p ((((p.setMark mark).readExit env).readPnL env).arm env)
    rw [hpnl'] at hpnl
    rw [hpct'] at hpct
    have hsame : Twins p (((p.setMark mark).readExit env).readPnL env) :=
      ⟨hpnl, hpct, hstop, hclosed⟩
    unfold arm
    split
    · rename_i pct hknown
      obtain ⟨stop, hs, -⟩ := h hopen pct (hpct.symm.trans hknown)
      rw [if_neg]
      · exact hsame
      · rintro ⟨hnone, -⟩
        rw [hstop, hs] at hnone
        cases hnone
    · exact hsame
  · exact ⟨rfl, rfl, rfl, rfl⟩

/-- An update by the stop it judges. -/
theorem update_of_live (env : Env) (pace : ℚ) (mark : Option Decimal) (p : Position) :
    (∀ stop pct, (p.marked env mark).liveStop = some (stop, pct) →
      p.fires env pace mark = (stop.update pct pace).triggered ∧
        (p.fires env pace mark = false →
          (p.update env pace mark).1 = (p.marked env mark).setStop (stop.update pct pace))) ∧
    ((p.marked env mark).liveStop = none →
      p.fires env pace mark = false ∧ (p.update env pace mark).1 = p.marked env mark) := by
  unfold fires
  rcases update_cases env pace mark p with ⟨hnone, heq⟩ |
    ⟨stop, pct, hlive, ⟨htriggered, -⟩ | ⟨-, heq⟩⟩
  · rw [hnone, heq]
    exact ⟨fun _ _ h => absurd h (Option.some_ne_none _).symm, fun _ => ⟨rfl, rfl⟩⟩
  · rw [hlive]
    refine ⟨fun stop' pct' hlive' => ?_, fun h => absurd h (Option.some_ne_none _)⟩
    obtain ⟨rfl, rfl⟩ := Prod.mk.inj (Option.some.inj hlive')
    exact ⟨rfl, fun hquiet => absurd (htriggered.symm.trans hquiet) Bool.true_eq_false.mp⟩
  · rw [hlive, heq]
    refine ⟨fun stop' pct' hlive' => ?_, fun h => absurd h (Option.some_ne_none _)⟩
    obtain ⟨rfl, rfl⟩ := Prod.mk.inj (Option.some.inj hlive')
    exact ⟨rfl, fun _ => rfl⟩

/-- Twins fire alike, at any pace, and stay twins while they do not. -/
theorem Twins.update {p r : Position} (h : p.Synced) (hopen : p.closedAt = none)
    (ht : Twins p r) {env : Env} (hp : p.hasPrice = true → p.Repeats env)
    (hr : r.hasPrice = true → r.Repeats env) (pace pace' : ℚ) (mark : Option Decimal) :
    p.fires env pace mark = r.fires env pace' mark ∧
      (p.fires env pace mark = false →
        Twins (p.update env pace mark).1 (r.update env pace' mark).1) := by
  have hm := twins_marked h hopen hp mark
  have hm' := twins_marked (h.twin ht) (ht.closedAt.trans hopen) hr mark
  have htm : Twins (p.marked env mark) (r.marked env mark) := (hm.symm.trans ht).trans hm'
  -- the stop is looked at for both or for neither
  have hlive : (r.marked env mark).liveStop = (p.marked env mark).liveStop := by
    unfold liveStop
    rw [htm.closedAt, htm.stoploss, htm.pnlPct]
  cases hl : (p.marked env mark).liveStop with
  | none =>
    obtain ⟨hf, he⟩ := (update_of_live env pace mark p).2 hl
    obtain ⟨hf', he'⟩ := (update_of_live env pace' mark r).2 (hlive.trans hl)
    rw [hf, hf', he, he']
    exact ⟨rfl, fun _ => htm⟩
  | some live =>
    obtain ⟨stop, pct⟩ := live
    obtain ⟨hf, he⟩ := (update_of_live env pace mark p).1 stop pct hl
    obtain ⟨hf', he'⟩ := (update_of_live env pace' mark r).1 stop pct (hlive.trans hl)
    obtain ⟨-, hstop, hpct⟩ := liveStop_eq_some hl
    obtain ⟨stop', hs, hcurrent⟩ := h hopen pct (hm.pnlPct.symm.trans hpct)
    have heq : stop' = stop := Option.some.inj (hs.symm.trans (hm.stoploss.symm.trans hstop))
    -- the stop has seen this return before, so the pace does not matter
    have hstill := Stoploss.update_still (heq ▸ hcurrent : stop.currentPnLPct = pct) pace' pace
    rw [hstill] at hf' he'
    refine ⟨hf.trans hf'.symm, fun hquiet => ?_⟩
    rw [he hquiet, he' (hf'.trans (hf.symm.trans hquiet))]
    exact ⟨htm.pnl, htm.pnlPct, rfl, htm.closedAt⟩

end Position

namespace Tier

/-- The lots that tiers hold at any time, over any number of restarts from what
tiers held. -/
inductive Held : Position → Prop
  | run (cfg : Cfg) (tierType : TierType) (hasTransport : Bool)
    (storedOpen storedClosed : List Position) (events : List Event)
    (hopen : ∀ p ∈ storedOpen, Held p) (hclosed : ∀ p ∈ storedClosed, Held p)
    (id : LotId) (p : Position)
    (hp : (runFrom step (new cfg tierType hasTransport storedOpen storedClosed) events).lot id =
      some p) : Held p

/-- What entering, marks and reports give every lot holds of all the lots of a
run, if it holds of those the run starts with. -/
theorem lots_runFrom {Q : Position → Prop}
    (hnew : ∀ p tierKey symbol path vol, Opened p tierKey symbol path vol → Q p)
    (hupdate : ∀ env pace mark p, Q p → Q (p.update env pace mark).1)
    (happly : ∀ env pace execution p, Q p → Q (p.apply env pace execution).1)
    {tier : Tier} (h : ∀ id p, tier.lot id = some p → Q p) (events : List Event) :
    ∀ id p, (runFrom step tier events).lot id = some p → Q p := by
  have hstep : ∀ (tier : Tier) (event : Event), (∀ id p, tier.lot id = some p → Q p) →
      ∀ id p, (tier.step event).lot id = some p → Q p :=
    fun _ event h => lots_step hnew hupdate happly h event
  exact always_runFrom hstep h events

/-- What restoring keeps, too, holds of all the lots tiers hold. -/
theorem Held.induct {Q : Position → Prop}
    (hnew : ∀ p tierKey symbol path vol, Opened p tierKey symbol path vol → Q p)
    (hupdate : ∀ env pace mark p, Q p → Q (p.update env pace mark).1)
    (happly : ∀ env pace execution p, Q p → Q (p.apply env pace execution).1)
    (hrestore : ∀ key p r, Q p → restore key p = some r → Q r) {p : Position} (h : Held p) :
    Q p := by
  induction h with
  | run cfg tierType hasTransport storedOpen storedClosed events hopen hclosed id p hp iho ihc =>
    refine lots_runFrom hnew hupdate happly (fun id p hp => ?_) events id p hp
    exact lot_new cfg tierType hasTransport
      (fun x hx r hr => hrestore tierType.string x r (iho x hx) hr)
      (fun x hx r hr => hrestore tierType.string x r (ihc x hx) hr) hp

/-- So every lot a tier holds is in step with its stop. -/
theorem Held.synced {p : Position} (h : Held p) : p.Synced := by
  refine h.induct (fun p _ _ _ _ hp _ pct hpct => ?_)
    (fun env pace mark p hp => hp.update env pace mark)
    (fun env pace execution p hp => hp.apply env pace execution) fun key p r hp hr => ?_
  · rw [hp.pnlPct] at hpct
    cases hpct
  · unfold restore at hr
    split at hr
    · cases hr
    · cases hr
      exact hp

/-- A mark of an open lot, beside the same mark of a tier that holds its restored
twin: the lot's own stop measures `pace`. -/
structure Mark where
  env : Env
  pace : ℚ
  mark : Option Decimal

/-- The lot and the tier of its twin, both marked. -/
def markBoth (symbol : String) (both : Position × Tier) (m : Mark) : Position × Tier :=
  ((both.1.update m.env m.pace m.mark).1, both.2.update m.env symbol m.mark)

/-- After the mark the twin at `id` shows the PnL and the return of the lot and is
stopped out if the lot is; it has then left the open cache and is pending. -/
def Alike (symbol : String) (id : LotId) (both : Position × Tier) (m : Mark) : Prop :=
  ∃ q, (markBoth symbol both m).2.lot id = some q ∧
    q.pnl = (markBoth symbol both m).1.pnl ∧ q.pnlPct = (markBoth symbol both m).1.pnlPct ∧
    q.closedAt.isSome = (markBoth symbol both m).1.closedAt.isSome ∧
    ((markBoth symbol both m).1.closedAt.isSome →
      (markBoth symbol both m).2.positions.opened.lookup symbol = none ∧
        (markBoth symbol both m).2.pending.lookup symbol = some id)

/-- The mark finds the lot's recorded PnL, if it prices the lot, and does not fire
its stop. -/
def Unmoved (both : Position × Tier) (m : Mark) : Prop :=
  (both.1.hasPrice = true → both.1.Repeats m.env) ∧ both.1.fires m.env m.pace m.mark = false

/-- The lots of the tier have neither a price nor a callback. -/
def Unwired (tier : Tier) : Prop :=
  ∀ id p, tier.lot id = some p → p.hasPrice = false ∧ p.hasOnSettled = false

/-- A mark of a tier of such lots moves none of them. -/
theorem update_of_unwired {tier : Tier} (hwf : tier.WellFormed) (h : tier.Unwired) (env : Env)
    (symbol : String) (mark : Option Decimal) :
    ∃ lots, tier.update env symbol mark = { tier with lots := lots } := by
  refine foldl_touch_of_quiet (hwf.all_nodup symbol) fun id _ => ?_
  cases hp : tier.lot id with
  | none =>
    unfold settlesAt
    rw [hp]
    rfl
  | some p =>
    rw [settlesAt_of_some hp]
    show (p.update env (env.pace id) mark).2 = false
    rw [Position.update_settles, (h id p hp).2, Bool.and_false]

/-- A mark wires no price to a restored lot. -/
theorem Unwired.update {tier : Tier} (hwf : tier.WellFormed) (h : tier.Unwired) (env : Env)
    (symbol : String) (mark : Option Decimal) : (tier.update env symbol mark).Unwired := by
  intro id q hq
  obtain ⟨p, hp, hsame, -⟩ :=
    lot_of_foldl_touch (lotCall_updateCall env mark) (hwf.all_nodup symbol) hq
  rw [hsame.hasPrice, hsame.hasOnSettled]
  exact h id p hp

/-- The lot is open and the tier holds its twin, and only unwired lots. -/
structure Twinned (symbol : String) (id : LotId) (both : Position × Tier) : Prop where
  synced : both.1.Synced
  isOpen : both.1.closedAt = none
  wf : both.2.WellFormed
  unwired : both.2.Unwired
  held : both.2.positions.opened.lookup symbol = some id
  twin : ∃ r, both.2.lot id = some r ∧ Position.Twins both.1 r

/-- The twin looks as the lot does after a mark exactly if the mark leaves the lot unmoved.
-/
theorem alike_iff {symbol : String} {id : LotId} {both : Position × Tier}
    (h : Twinned symbol id both) (m : Mark) : Alike symbol id both m ↔ Unmoved both m := by
  obtain ⟨p, tier⟩ := both
  obtain ⟨r, hr, htwins⟩ := h.twin
  have hlot := lot_update_of_opened h.wf h.held hr m.env m.mark
  obtain ⟨lots, hmoved⟩ := update_of_unwired h.wf h.unwired m.env symbol m.mark
  have hprice : r.hasPrice = false := (h.unwired id r hr).1
  have hunpriced : r.hasPrice = true → r.Repeats m.env := fun hp => by
    rw [hprice] at hp
    cases hp
  have hstill := Position.twins_marked (h.synced.twin htwins) (htwins.closedAt.trans h.isOpen)
    hunpriced m.mark
  obtain ⟨hpnl, hpct, -⟩ := Position.update_result m.env m.pace m.mark p
  obtain ⟨hpnl', hpct', -⟩ := Position.update_result m.env (m.env.pace id) m.mark r
  unfold Alike Unmoved markBoth
  dsimp only
  rw [hlot]
  constructor
  · rintro ⟨q, hq, hsame, hsamePct, -, hgone⟩
    obtain rfl := Option.some.inj hq
    refine ⟨fun hpriced => ?_, ?_⟩
    · obtain ⟨hread, hreadPct, -⟩ := Position.marked_result m.env m.mark hpriced
      rw [← Position.readPnL_same_iff, ← hread, ← hreadPct, ← hpnl, ← hpct, ← hsame, ← hsamePct,
        hpnl', hpct', hstill.pnl, hstill.pnlPct]
      exact ⟨htwins.pnl, htwins.pnlPct⟩
    · -- a stop that fires would close the original and leave the restored lot open
      by_contra hfires
      have hclosed := (Position.update_of_fires (Bool.eq_true_of_not_eq_false hfires)).2.2.1
      have hnone := (hgone (by rw [hclosed]; rfl)).1
      rw [hmoved] at hnone
      have hheld := h.held
      rw [hnone] at hheld
      cases hheld
  · rintro ⟨hrepeats, hquiet⟩
    have hnext := (htwins.update h.synced h.isOpen hrepeats hunpriced m.pace (m.env.pace id)
      m.mark).2 hquiet
    refine ⟨_, rfl, hnext.pnl, hnext.pnlPct, by rw [hnext.closedAt], fun hclosed => ?_⟩
    rw [(Position.update_of_quiet hquiet).2, h.isOpen] at hclosed
    cases hclosed

/-- As long as they do, they stay twins. -/
theorem Twinned.step {symbol : String} {id : LotId} {both : Position × Tier}
    (h : Twinned symbol id both) {m : Mark} (hok : Alike symbol id both m) :
    Twinned symbol id (markBoth symbol both m) := by
  have hmoved := (alike_iff h m).mp hok
  obtain ⟨p, tier⟩ := both
  obtain ⟨r, hr, htwins⟩ := h.twin
  obtain ⟨lots, hsame⟩ := update_of_unwired h.wf h.unwired m.env symbol m.mark
  have hunpriced : r.hasPrice = true → r.Repeats m.env := fun hp => by
    rw [(h.unwired id r hr).1] at hp
    cases hp
  refine ⟨h.synced.update m.env m.pace m.mark,
    (Position.update_of_quiet hmoved.2).2.trans h.isOpen, ?_, h.unwired.update h.wf m.env symbol m.mark, ?_,
    ⟨_, lot_update_of_opened h.wf h.held hr m.env m.mark,
      (htwins.update h.synced h.isOpen hmoved.1 hunpriced m.pace (m.env.pace id) m.mark).2
        hmoved.2⟩⟩
  · exact h.wf.step (.update m.env symbol m.mark)
  · show (tier.update m.env symbol m.mark).positions.opened.lookup symbol = some id
    rw [hsame]
    exact h.held

/-- For every open lot a tier ever holds, and every restart whose tier restores
the lot under its symbol: the marks the two answer alike, up to the first that
differs, are those that do not move the lot. -/
theorem restored_managed_iff {p : Position} (hheld : Held p) (hopen : p.closedAt = none)
    (cfg : Cfg) (tierType : TierType) (hasTransport : Bool)
    (storedOpen storedClosed : List Position) {symbol : String} {id : LotId} {r : Position}
    (hid : (new cfg tierType hasTransport storedOpen storedClosed).positions.opened.lookup symbol =
      some id)
    (hr : (new cfg tierType hasTransport storedOpen storedClosed).lot id = some r)
    (hrestore : restore tierType.string p = some r) (marks : List Mark) :
    Along (markBoth symbol) (Alike symbol id)
        (p, new cfg tierType hasTransport storedOpen storedClosed) marks ↔
      Along (markBoth symbol) Unmoved
        (p, new cfg tierType hasTransport storedOpen storedClosed) marks := by
  -- `restore` sets neither the price nor the callback of a lot
  have hunwired : ∀ x q, restore tierType.string x = some q →
      q.hasPrice = false ∧ q.hasOnSettled = false := by
    intro x q hx
    unfold restore at hx
    split at hx
    · cases hx
    · cases hx
      exact ⟨rfl, rfl⟩
  -- but it keeps the stop and the entry, so both lots see one stop
  have htwins : Position.Twins p r := by
    unfold restore at hrestore
    split at hrestore
    · cases hrestore
    · cases hrestore
      exact ⟨rfl, rfl, rfl, rfl⟩
  have hstart : Twinned symbol id (p, new cfg tierType hasTransport storedOpen storedClosed) :=
    ⟨hheld.synced, hopen, wellFormed_new cfg tierType hasTransport storedOpen storedClosed,
      fun _ _ hq => lot_new cfg tierType hasTransport (fun x _ => hunwired x)
        (fun x _ => hunwired x) hq, hid, r, hr, htwins⟩
  have hstep : ∀ (both : Position × Tier) (m : Mark), Twinned symbol id both →
      Alike symbol id both m → Twinned symbol id (markBoth symbol both m) :=
    fun _ _ h hok => h.step hok
  have hiff : ∀ (both : Position × Tier) (m : Mark), Twinned symbol id both →
      (Alike symbol id both m ↔ Unmoved both m) := fun _ m h => alike_iff h m
  exact along_iff_of_inv hstep hiff hstart marks

/-- A paper lot that was filled at 100 and priced at a bid of 99. -/
def sampleLot : Position :=
  ((runFrom step (new Cfg.defaults .paper true [] [])
    ((Desk.sampleRound "s" 100 80).take 2)).lot 0).getD (Position.new "" "" "" "")

theorem held_sampleLot : Held sampleLot := by
  have hlot : (runFrom step (new Cfg.defaults .paper true [] [])
      ((Desk.sampleRound "s" 100 80).take 2)).lot 0 = some sampleLot := by
    decide +kernel
  have hnone : ∀ p ∈ ([] : List Position), Held p := fun p hp => absurd hp List.not_mem_nil
  exact Held.run Cfg.defaults .paper true [] [] _ hnone hnone 0 sampleLot hlot

/-- Another mark at a bid of 99 finds the lot and its twin alike. -/
theorem restored_managed_sample :
    sampleLot.closedAt = none ∧ Along (markBoth "A/B") (Alike "A/B" 0)
      (sampleLot, new Cfg.defaults .paper true [sampleLot] [])
      [⟨Desk.sampleEnv "s" 5 99, 1, some 99⟩] := by
  have hopen : sampleLot.closedAt = none := by decide +kernel
  have hid : (new Cfg.defaults .paper true [sampleLot] []).positions.opened.lookup "A/B" =
      some 0 := by decide +kernel
  have hlot : (new Cfg.defaults .paper true [sampleLot] []).lot 0 =
      restore TierType.paper.string sampleLot := by decide +kernel
  have hrepeats : (sampleLot.readPnL (Desk.sampleEnv "s" 5 99)).pnl = sampleLot.pnl ∧
      (sampleLot.readPnL (Desk.sampleEnv "s" 5 99)).pnlPct = sampleLot.pnlPct := by
    decide +kernel
  have hquiet : sampleLot.fires (Desk.sampleEnv "s" 5 99) 1 (some 99) = false := by
    decide +kernel
  have hsome : (restore TierType.paper.string sampleLot).isSome = true := by decide +kernel
  obtain ⟨r, hr⟩ := Option.isSome_iff_exists.mp hsome
  have halike := restored_managed_iff held_sampleLot hopen Cfg.defaults .paper true [sampleLot] []
    hid (hlot.trans hr) hr [⟨Desk.sampleEnv "s" 5 99, 1, some 99⟩]
  have hunmoved : Unmoved (sampleLot, new Cfg.defaults .paper true [sampleLot] [])
      ⟨Desk.sampleEnv "s" 5 99, 1, some 99⟩ :=
    ⟨fun _ => (Position.readPnL_same_iff _ _).mp hrepeats, hquiet⟩
  exact ⟨hopen, halike.mpr (along_cons.mpr ⟨hunmoved, along_nil _⟩)⟩

/-- A mark at a bid of 80 stops the lot out, and its twin stays open. -/
theorem sampleRestart_unmanaged :
    ¬ Along (markBoth "A/B") (Alike "A/B" 0)
      (sampleLot, new Cfg.defaults .paper true [sampleLot] [])
      [⟨Desk.sampleEnv "s" 5 80, 1, some 80⟩] := by
  have hout : (markBoth "A/B" (sampleLot, new Cfg.defaults .paper true [sampleLot] [])
      ⟨Desk.sampleEnv "s" 5 80, 1, some 80⟩).1.closedAt.isSome = true := by
    decide +kernel
  have hstays : ((markBoth "A/B" (sampleLot, new Cfg.defaults .paper true [sampleLot] [])
      ⟨Desk.sampleEnv "s" 5 80, 1, some 80⟩).2.lot 0).any (fun q => q.closedAt.isSome) =
        false := by
    decide +kernel
  rintro ⟨⟨q, hq, -, -, hclosed, -⟩, -⟩
  rw [hq, Option.any_some, hclosed, hout] at hstays
  cases hstays

end Tier

end Symm.Broker
